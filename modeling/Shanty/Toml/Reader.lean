/-
# Reading configuration documents

A document is a list of headers, which say which table the following entries belong
to, and entries. A table must not be opened twice with the same text between its
brackets, and no entry may be given twice.

Values nest, so a value is read with an allowance that goes down with each level and
each item. Twice the number of tokens is always enough.
-/

import Shanty.Toml
import Shanty.Toml.Token

namespace Shanty.Toml

/-- Why a text cannot be read. -/
inductive ReadError
  /-- The text is no document. -/
  | malformed
  /-- Where a value should be, there is a token that no rule for values provides for. -/
  | unforeseen
  deriving DecidableEq

/-- What reading gives. -/
abbrev Reading := Except ReadError

/-- A result that is there, or else the text is malformed. -/
def required {α : Type} : Option α → Reading α
  | some result => .ok result
  | none => .error .malformed

/-- A scalar that is kept as it is written if it is sound. -/
def scalar (sound : Bool) (written : List Char) : Reading Value :=
  if sound then .ok (.scalar (String.ofList written)) else .error .malformed

/-- The value of a list of items. Tables alone make a list of tables. -/
def ofItems (items : List Value) : Value :=
  let tables := items.filterMap fun
    | .table entries closed => some (entries, closed)
    | _ => none
  if !items.isEmpty && tables.length = items.length then .tables tables else .array items

mutual

/-- Reads the value that tokens start with. A date may be followed by a time, which may
be followed by the distance of a time zone. -/
def value (allowance : Nat) (tokens : List Token) : Reading (Value × List Token) :=
  match allowance with
  | 0 => .error .malformed
  | allowance + 1 =>
    match tokens with
    | .string text :: rest => .ok (.string (String.ofList text), rest)
    | .bool flag :: rest => .ok (.bool flag, rest)
    | .word written :: rest => do return (← scalar true written, rest)
    | .integer written :: rest => do return (← scalar (isInteger written) written, rest)
    | .float written :: rest => do return (← scalar (isFloat written) written, rest)
    | .time time :: rest => do return (← scalar (isTime time) time, rest)
    | .date date :: .time time :: .offset offset :: rest => do
      return (← scalar (isDate date && isTime time && isOffset offset)
        (date ++ 'T' :: time ++ offset), rest)
    | .date date :: .time time :: rest => do
      return (← scalar (isDate date && isTime time) (date ++ 'T' :: time), rest)
    | .date date :: rest => do return (← scalar (isDate date) date, rest)
    | .openBracket :: rest => do
      let (items, rest) ← items allowance rest
      return (ofItems items, rest)
    | .openBrace :: .closeBrace :: rest => .ok (.table [] true, rest)
    | .openBrace :: rest => do
      let (entries, rest) ← entries allowance [] rest
      return (.table entries true, rest)
    | .equals :: _ | .mistake :: _ | .finish :: _ | [] => .error .malformed
    | _ => .error .unforeseen

/-- Reads the items of an array up to its closing bracket. A comma may stand behind the
last one. -/
def items (allowance : Nat) (tokens : List Token) : Reading (List Value × List Token) :=
  match allowance with
  | 0 => .error .malformed
  | allowance + 1 =>
    match tokens with
    | .closeBracket :: rest => .ok ([], rest)
    | tokens => do
      let (item, rest) ← value allowance tokens
      match rest with
      | .closeBracket :: rest => return ([item], rest)
      | .comma :: rest =>
        let (items, rest) ← items allowance rest
        return (item :: items, rest)
      | _ => .error .malformed

/-- Reads the entries of a table up to its closing brace. Of entries for the same key the
last one counts. -/
def entries (allowance : Nat) (before : Entries) (tokens : List Token) :
    Reading (Entries × List Token) :=
  match allowance with
  | 0 => .error .malformed
  | allowance + 1 =>
    match tokens with
    | .key written :: .equals :: rest => do
      let path ← required (path? written)
      let (value, rest) ← value allowance rest
      match rest with
      | .closeBrace :: rest => return (before.put value path, rest)
      | .comma :: rest => entries allowance (before.put value path) rest
      | _ => .error .malformed
    | _ => .error .malformed

end

/-- How far a document has been read: what it holds so far, the table that entries
belong to, and the headers so far as they are written. -/
structure Progress where
  document : Entries := []
  current : List String := []
  headers : List (List Char) := []

/-- Takes the header of a table. It must not have been written in this way before. -/
def Progress.enterTable (progress : Progress) (written : List Char) : Option Progress := do
  if progress.headers.contains written then none
  else
    let path ← path? written
    let document ← progress.document.openTable path
    return { document, current := path, headers := written :: progress.headers }

/-- Takes the header of one more table in a list of tables. The headers of tables in
the one before may be used again. -/
def Progress.enterListed (progress : Progress) (written : List Char) : Option Progress := do
  let path ← path? written
  let document ← progress.document.addTable path
  let headers := progress.headers.filter fun earlier =>
    !(written ++ ['.']).isPrefixOf earlier
  return { document, current := path, headers := written :: headers }

/-- Takes an entry. -/
def Progress.enter (progress : Progress) (path : List String) (value : Value) :
    Option Progress := do
  let document ←
    progress.document.add (progress.current ++ path.dropLast) (← path.getLast?) value
  return { progress with document }

/-- Reads headers and entries to the end of a text. -/
def statements (allowance : Nat) (progress : Progress) (tokens : List Token) :
    Reading Progress :=
  match allowance with
  | 0 => .error .malformed
  | allowance + 1 =>
    match tokens with
    | .finish :: _ => .ok progress
    | .openBracket :: .header written :: .closeBracket :: rest => do
      statements allowance (← required (progress.enterTable written)) rest
    | .openBrackets :: .listHeader written :: .closeBrackets :: rest => do
      statements allowance (← required (progress.enterListed written)) rest
    | .key written :: .equals :: rest => do
      let path ← required (path? written)
      let (value, rest) ← value (2 * rest.length) rest
      statements allowance (← required (progress.enter path value)) rest
    | _ => .error .malformed

/-- Reads a document. A mark of the byte order at its start is left out. -/
def read (text : String) : Reading Entries := do
  let chars := match text.toList with
    | '\uFEFF' :: rest => rest
    | chars => chars
  let tokens := tokens chars
  return (← statements tokens.length {} tokens).document

end Shanty.Toml
