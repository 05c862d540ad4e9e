/-
# Configuration documents

A document is a table: entries with distinct keys, in the order of their first
mention. Values are strings, truth values, other scalars, arrays, tables, and lists
of tables, which are extended table by table. A table that was written in one go
between braces is closed and takes no more entries from outside, and neither do the
tables that are opened in it later.

A path leads from table to table. Of a list of tables, the last one is on the way.
-/

namespace Shanty.Toml

/-- A value. The tables of a list tell each for itself whether they are closed. -/
inductive Value
  | string (text : String)
  | bool (flag : Bool)
  /-- A number, a date or a time, as it is written. -/
  | scalar (text : String)
  | array (items : List Value)
  | table (entries : List (String × Value)) (closed : Bool)
  | tables (items : List (List (String × Value) × Bool))
  deriving Inhabited

/-- The entries of a table. -/
abbrev Entries := List (String × Value)

namespace Entries

/-- The entries with a new value for a key. A new key goes to the end. -/
def set (entries : Entries) (key : String) (value : Value) : Entries :=
  if (entries.lookup key).isSome then
    entries.map fun entry => if entry.1 = key then (key, value) else entry
  else entries ++ [(key, value)]

/-- What a path leads to, if it can be followed to its end. -/
def get? (entries : Entries) (closed : Bool) : List String → Option Value
  | [] => some (.table entries closed)
  | key :: path =>
    match entries.lookup key with
    | none => none
    | some (.table inner closed) => get? inner closed path
    | some (.tables items) =>
      if path.isEmpty then some (.tables items)
      else items.getLast?.bind fun last => get? last.1 last.2 path
    | some value => if path.isEmpty then some value else none

/-- Changes the table at the end of a path, given the change and whether the table is
closed. Tables on the way that are missing are made; those made in a closed table are
closed. -/
def update (change : Entries → Bool → Option Entries) (entries : Entries) (closed : Bool) :
    List String → Option Entries
  | [] => change entries closed
  | key :: path =>
    match entries.lookup key with
    | none => do return entries.set key (.table (← update change [] closed path) closed)
    | some (.table inner closed) => do
      return entries.set key (.table (← update change inner closed path) closed)
    | some (.tables items) => do
      let last ← items.getLast?
      let changed ← update change last.1 last.2 path
      return entries.set key (.tables (items.dropLast ++ [(changed, last.2)]))
    | some _ => none

/-- Puts a value at the end of a path, whatever was there before. A key on the way that
has a value other than a table is passed over. -/
def put (value : Value) (entries : Entries) : List String → Entries
  | [] => entries
  | key :: path =>
    if path.isEmpty then entries.set key value
    else
      match entries.lookup key with
      | none => entries.set key (.table (put value [] path) false)
      | some (.table inner closed) => entries.set key (.table (put value inner path) closed)
      | some (.tables items) =>
        match items.getLast? with
        | none => entries
        | some (last, closed) =>
          entries.set key (.tables (items.dropLast ++ [(put value last path, closed)]))
      | some _ => put value entries path

/-- Adds an entry to the table at the end of a path, which must not be closed. The key
must be new. -/
def add (entries : Entries) (path : List String) (key : String) (value : Value) :
    Option Entries :=
  entries.update (fun inner closed =>
    if closed || (inner.lookup key).isSome then none else some (inner.set key value)) false path

/-- Makes the tables on a path as far as they are missing. -/
def make (entries : Entries) (path : List String) : Option Entries :=
  entries.update (fun inner _ => some inner) false path

/-- Opens the table at the end of a path, which must not be closed. -/
def openTable (entries : Entries) (path : List String) : Option Entries := do
  let made ← entries.make path
  match made.get? false path with
  | some (.table _ true) => none
  | _ => some made

/-- Adds an empty table to the list of tables at the end of a path. -/
def addTable (entries : Entries) (path : List String) : Option Entries :=
  let made := (entries.make path.dropLast).getD entries
  match made.get? false path with
  | none => some (made.put (.tables [([], false)]) path)
  | some (.tables items) => some (made.put (.tables (items ++ [([], false)])) path)
  | some _ => none

end Entries

end Shanty.Toml
