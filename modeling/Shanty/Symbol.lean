/-
# Symbols

A symbol is what a name stands for: a variable, a function or a record type,
together with its type and the place of its declaration.
-/

import Shanty.Text.Span
import Shanty.Ty

namespace Shanty

namespace Symbol

/-- What a symbol can be. -/
inductive Kind
  | var
  | fn
  | record
  deriving DecidableEq

/-- The short name of a kind. -/
def Kind.name : Kind → String
  | .var => "var"
  | .fn => "fn"
  | .record => "record"

end Symbol

/-- What a name stands for. The type of a record's symbol is the record type
itself. Symbols of one program have distinct numbers, so that two variables of the
same name and type are not confused. -/
structure Symbol where
  number : Nat
  name : String
  kind : Symbol.Kind
  type : Ty
  declared : Option Span

end Shanty
