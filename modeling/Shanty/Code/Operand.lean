/-
# Operands of the intermediate code

The intermediate code computes with constants, with the labels of strings, with
variables and with temporaries. A temporary either holds a value or holds the
address of a value; an operand of the second kind stands for the value at that
address.

Everything but a constant has storage, and pieces of storage are told apart by
their slots. The width of an operand is a word of 64 bits: code that does not stem
from a program may ask for any width.
-/

import Shanty.Fault
import Shanty.Symbol

namespace Shanty.Code

/-- The width in bytes of a slot. -/
abbrev slotWidth : Int64 := slotSize

/-- A declared variable. Variables of a program have distinct symbols. -/
structure Variable where
  symbol : Nat
  name : String
  width : Int64
  deriving DecidableEq

/-- The variable of a symbol. -/
def Variable.ofSymbol (symbol : Symbol) : Variable :=
  ⟨symbol.number, symbol.name, symbol.type.size⟩

/-- A temporary of a procedure, which is given by its place in the program. The
temporaries of a procedure have distinct numbers, whether they hold values or
addresses. -/
structure Temp where
  owner : Nat
  number : Nat
  width : Int64
  deriving DecidableEq

/-- What tells one piece of storage from all others. -/
inductive Slot
  | var (symbol : Nat)
  | temp (owner number : Nat)
  deriving DecidableEq

/-- The storage of a variable. -/
def Variable.slot (var : Variable) : Slot := .var var.symbol

/-- The storage of a temporary. -/
def Temp.slot (temp : Temp) : Slot := .temp temp.owner temp.number

/-- An operand. -/
inductive Operand
  /-- A number or a truth value, as it is written. -/
  | constant (text : String)
  /-- The string with an index in the program's list of strings. -/
  | string (index : Nat)
  | var (var : Variable)
  /-- A temporary that holds a value. -/
  | temp (temp : Temp)
  /-- The value at the address that a temporary holds. -/
  | address (temp : Temp)
  /-- The result of calling a function that has none. It must not be used. -/
  | nothing
  deriving DecidableEq

/-- The label of a string. -/
def stringLabel (index : Nat) : String := "str_" ++ toString index

namespace Operand

/-- The operand of a truth value. -/
def ofBool (value : Bool) : Operand := .constant (if value then "1" else "0")

/-- The name of a temporary that holds a value. -/
def tempName (temp : Temp) : String := "tmp" ++ toString temp.number

/-- The name of a temporary that holds an address. -/
def addressName (temp : Temp) : String := "addrTmp" ++ toString temp.number

/-- The operand as it is written where its value is meant. -/
def render : Operand → Except Fault String
  | .constant text => .ok text
  | .string index => .ok (stringLabel index)
  | .var v => .ok ("[" ++ v.name ++ "]")
  | .temp t => .ok ("[" ++ tempName t ++ "]")
  | .address t => .ok ("[[" ++ addressName t ++ "]]")
  | .nothing => .error .absent

/-- The place that an address temporary stands for, as it is written. -/
def renderAddress (temp : Temp) : String := "[" ++ addressName temp ++ "]"

/-- The fault of asking where a constant is. -/
def noLocation (text : String) : Fault :=
  .internal ("tried to get the location of constant `" ++ text ++ "`")

/-- The operand as it is written where its place is meant. A constant has none. -/
def renderPlace : Operand → Except Fault String
  | .constant text => .error (noLocation text)
  | .string index => .error (noLocation (stringLabel index))
  | .var v => .ok v.name
  | .temp t => .ok (tempName t)
  | .address t => .ok (renderAddress t)
  | .nothing => .error .absent

/-- The width of the operand's storage. Constants are as wide as a slot. -/
def width : Operand → Except Fault Int64
  | .constant _ | .string _ => .ok slotWidth
  | .var v => .ok v.width
  | .temp t | .address t => .ok t.width
  | .nothing => .error .absent

/-- The storage of the operand. The storage of an address temporary is where the
address is kept. -/
def slot : Operand → Except Fault Slot
  | .constant text => .error (noLocation text)
  | .string index => .error (noLocation (stringLabel index))
  | .var v => .ok v.slot
  | .temp t | .address t => .ok t.slot
  | .nothing => .error .absent

/-- Whether the operand has storage. -/
def isLocated : Operand → Bool
  | .constant _ | .string _ => false
  | _ => true

/-- Whether the operand is the constant written like this. -/
def isConstant (operand : Operand) (text : String) : Bool :=
  operand = .constant text

end Operand

end Shanty.Code
