/-
# Paths

A path is a text in which slashes separate the names on the way to a file. Two paths
may lead to the same file; cleaning a path removes what can be removed without
looking at any file.
-/

namespace Shanty.Path

/-- Whether a path does not depend on the working directory. -/
def isAbsolute (path : String) : Bool := path.startsWith "/"

/-- The names on a path, of which those in front are given last. A step back cancels
the name before it. Where there is none, it stays, unless the path is absolute. -/
def cleanNames (absolute : Bool) (done : List String) : List String → List String
  | [] => done.reverse
  | "" :: rest | "." :: rest => cleanNames absolute done rest
  | ".." :: rest =>
    match done with
    | [] => cleanNames absolute (if absolute then [] else [".."]) rest
    | ".." :: _ => cleanNames absolute (".." :: done) rest
    | _ :: before => cleanNames absolute before rest
  | name :: rest => cleanNames absolute (name :: done) rest

/-- The path without detours. An empty one is the working directory. -/
def clean (path : String) : String :=
  let absolute := isAbsolute path
  let text := String.intercalate "/" (cleanNames absolute [] (path.splitOn "/"))
  if absolute then "/" ++ text else if text = "" then "." else text

/-- Two paths one after the other, cleaned. An empty one in front does not count. -/
def join (first second : String) : String :=
  if first = "" then (if second = "" then "" else clean second) else clean (first ++ "/" ++ second)

/-- Everything up to and including the last slash, from a path given backwards. -/
def upToSlash (backwards : List Char) : List Char :=
  (backwards.dropWhile (· ≠ '/')).reverse

/-- The directory that a path leads into, cleaned. -/
def directory (path : String) : String :=
  clean (String.ofList (upToSlash path.toList.reverse))

/-- The path without the extension of its last name. The extension starts at the last
dot of the name. -/
def dropExtension (path : String) : String :=
  let backwards := path.toList.reverse
  let name := backwards.takeWhile (· ≠ '/')
  if name.contains '.' then String.ofList (backwards.dropWhile (· ≠ '.')).tail.reverse else path

/-- The path as seen from the root, given the working directory. -/
def absolute (workDir path : String) : String :=
  if isAbsolute path then clean path else join workDir path

end Shanty.Path
