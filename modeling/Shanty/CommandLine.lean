/-
# The command line

A command line names a command and gives it one main argument and some settings. A
setting is either a flag, which is named alone, or has a value behind an equals sign.
Names are given in full behind two dashes or in short behind one. The settings of the
program itself may also be given behind those of a command.

The grammar is data: a list of commands, each with its settings. Reading takes the
arguments from left to right and stops at the first mistake.
-/

import Shanty.Compilation

namespace Shanty.CommandLine

/-- What a setting takes. -/
inductive SettingKind
  | flag
  | text
  | choice (values : List String)
  deriving DecidableEq

/-- A setting with its full and its short name. -/
structure Setting where
  name : String
  short : String
  kind : SettingKind

/-- Whether a setting is a flag. -/
def Setting.isFlag (setting : Setting) : Bool := setting.kind = .flag

/-- A command. The main argument of a command that has one must be given. -/
structure Command where
  name : String
  mainArgument : Option String := none
  settings : List Setting := []

/-- The program itself. -/
def program : Command :=
  { name := "cshantyc"
    settings := [⟨"loglevel", "ll", .choice (LogLevel.all.map LogLevel.name)⟩] }

/-- All commands. -/
def commands : List Command :=
  [{ name := "build"
     mainArgument := some "source-path"
     settings :=
       [⟨"profile", "p", .text⟩, ⟨"target", "t", .choice ["x64", "mips", "llvm"]⟩,
         ⟨"output", "o", .text⟩, ⟨"3ac", "a", .text⟩, ⟨"tokens", "tk", .text⟩,
         ⟨"unparse", "u", .text⟩, ⟨"names", "n", .text⟩, ⟨"noopt", "no", .flag⟩,
         ⟨"dump-ast", "da", .flag⟩] },
    { name := "check", mainArgument := some "source-path" },
    { name := "init", mainArgument := some "project-name" },
    { name := "version" }]

/-- A mistake in a command line. What is said about a setting depends on whether it was
named in full. -/
inductive UsageError
  | unknownFlag (inFull : Bool) (name : String)
  | unknownArgument (inFull : Bool) (name : String)
  | flagTwice (name : String)
  | argumentTwice (name : String)
  | invalidValue (value argument : String)
  | unknownCommand (name : String)
  | unexpectedCommand (name : String)
  | mainArgumentTwice (command : String)
  | noCommand (program : String)
  | noMainArgument (command argument : String)
  deriving DecidableEq

/-- How the way in which a setting was named is told. -/
def namedHow (inFull : Bool) : String := if inFull then "" else " by short name"

/-- The mistake in words. -/
def UsageError.message : UsageError → String
  | .unknownFlag inFull name => "unknown flag" ++ namedHow inFull ++ ": `" ++ name ++ "`"
  | .unknownArgument inFull name => "unknown argument" ++ namedHow inFull ++ ": `" ++ name ++ "`"
  | .flagTwice name => "flag `" ++ name ++ "` set multiple times"
  | .argumentTwice name => "argument `" ++ name ++ "` set multiple times"
  | .invalidValue value argument =>
    "`" ++ value ++ "` is not a valid value for argument [" ++ argument ++ "]"
  | .unknownCommand name => "unknown subcommand: `" ++ name ++ "`"
  | .unexpectedCommand name => "unexpected subcommand: `" ++ name ++ "`"
  | .mainArgumentTwice command =>
    "multiple primary arguments specified for command `" ++ command ++ "`"
  | .noCommand program => "`" ++ program ++ "` requires a subcommand"
  | .noMainArgument command argument =>
    "missing required primary argument `" ++ command ++ "` for subcommand `" ++ argument ++ "`"

/-- What has been read of a command line: the command, its main argument, the flags that
are set and the values that are given, both under their full names. -/
structure Reading where
  command : Option Command := none
  mainArgument : String := ""
  flags : List String := []
  values : List (String × String) := []

namespace Reading

/-- The settings that may be given, those of the command first. -/
def settings (reading : Reading) : List Setting :=
  (reading.command.map (·.settings)).getD [] ++ program.settings

/-- Whether a setting has been given. -/
def anySet (reading : Reading) : Bool := !reading.flags.isEmpty || !reading.values.isEmpty

/-- The value of an argument. It is empty if the argument was not given. -/
def value (reading : Reading) (name : String) : String := (reading.values.lookup name).getD ""

/-- Whether a flag is set. -/
def has (reading : Reading) (flag : String) : Bool := reading.flags.contains flag

/-- The setting with a name that is a flag, or that is none. -/
def find? (reading : Reading) (isFlag inFull : Bool) (name : String) : Option Setting :=
  reading.settings.find? fun setting =>
    setting.isFlag = isFlag && (if inFull then setting.name else setting.short) = name

/-- Takes a flag. -/
def takeFlag (reading : Reading) (inFull : Bool) (name : String) : Except UsageError Reading :=
  match reading.find? true inFull name with
  | none => .error (.unknownFlag inFull name)
  | some setting =>
    if reading.has setting.name then .error (.flagTwice setting.name)
    else .ok { reading with flags := reading.flags ++ [setting.name] }

/-- Takes an argument with its value. -/
def takeValue (reading : Reading) (inFull : Bool) (name value : String) :
    Except UsageError Reading :=
  match reading.find? false inFull name with
  | none => .error (.unknownArgument inFull name)
  | some setting =>
    let taken := { reading with values := reading.values ++ [(setting.name, value)] }
    if (reading.values.lookup setting.name).isSome then .error (.argumentTwice setting.name)
    else
      match setting.kind with
      | .choice values =>
        if values.contains value then .ok taken else .error (.invalidValue value setting.name)
      | _ => .ok taken

/-- Takes a word that is no setting: the main argument of a command that has one, and the
name of a command otherwise. After a setting no command can be named. -/
def takeWord (reading : Reading) (word : String) : Except UsageError Reading :=
  match reading.command with
  | none =>
    if reading.anySet then .error (.unexpectedCommand word)
    else
      match commands.find? (·.name = word) with
      | some command => .ok { reading with command := some command }
      | none => .error (.unknownCommand word)
  | some command =>
    if command.mainArgument.isSome then
      if reading.mainArgument ≠ "" then .error (.mainArgumentTwice command.name)
      else .ok { reading with mainArgument := word }
    else if reading.anySet then .error (.unexpectedCommand word)
    else .error (.unknownCommand word)

/-- Takes one more piece of the command line. Behind its dashes a setting has a name up
to the first equals sign. Without a value it is a flag. -/
def take (reading : Reading) (piece : String) : Except UsageError Reading :=
  if piece.startsWith "-" then
    let body := piece.toList.dropWhile (· = '-')
    let name := String.ofList (body.takeWhile (· ≠ '='))
    let value := String.ofList ((body.dropWhile (· ≠ '=')).drop 1)
    let inFull : Bool := piece.startsWith "--"
    if value = "" then reading.takeFlag inFull name else reading.takeValue inFull name value
  else reading.takeWord piece

/-- The reading, if nothing is missing. -/
def complete (reading : Reading) : Except UsageError (Command × Reading) :=
  match reading.command with
  | none => .error (.noCommand program.name)
  | some command =>
    match command.mainArgument with
    | some argument =>
      if reading.mainArgument = "" then .error (.noMainArgument command.name argument)
      else .ok (command, reading)
    | none => .ok (command, reading)

end Reading

/-- What a build was asked for beyond its source. An empty path or name was not given. -/
structure BuildRequest where
  profile : String
  target : Option Target
  output : String
  optimize : Bool
  artifacts : Compilation.Artifacts

/-- What the program is asked to do. -/
inductive Order
  | build (source : String) (request : BuildRequest)
  | check (source : String)
  | init (name : String)
  | version

namespace Reading

/-- The request of a build. -/
def buildRequest (reading : Reading) : BuildRequest where
  profile := reading.value "profile"
  target := Target.ofName? (reading.value "target")
  output := reading.value "output"
  optimize := !reading.has "noopt"
  artifacts :=
    { tokens := reading.value "tokens"
      parsed := reading.value "unparse"
      names := reading.value "names"
      listing := reading.value "3ac"
      showTree := reading.has "dump-ast" }

/-- What is asked for by a complete reading with a command. -/
def order (reading : Reading) (command : Command) : Order :=
  match command.name with
  | "build" => .build reading.mainArgument reading.buildRequest
  | "check" => .check reading.mainArgument
  | "init" => .init reading.mainArgument
  | _ => .version

/-- How much is to be shown. Without a word on it, all is. -/
def level (reading : Reading) : LogLevel :=
  (LogLevel.ofName? (reading.value "loglevel")).getD .verbose

end Reading

/-- Reads a command line. -/
def read (pieces : List String) : Except UsageError (LogLevel × Order) := do
  let (command, reading) ← (← pieces.foldlM Reading.take {}).complete
  return (reading.level, reading.order command)

end Shanty.CommandLine
