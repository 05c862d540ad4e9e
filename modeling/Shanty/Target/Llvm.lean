/-
# Modules of LLVM

The part of LLVM's intermediate representation that emitted programs are made of: a
module with global variables and functions, functions made of blocks, blocks made of
instructions and ended by a terminator.

Values that an instruction computes have no names. They are numbered through a
function in the order of their instructions, and instructions without a result are
not counted.
-/

import Shanty.Code.Quad
import Shanty.Ty

namespace Shanty.Target.Llvm

/-- The types of LLVM in use. -/
inductive IrType
  | void
  | int (bits : Nat)
  | pointer (target : IrType)
  | array (length : Nat) (element : IrType)
  | fn (result : IrType) (params : List IrType)
  deriving Inhabited

namespace IrType

mutual

/-- Whether two types are the same. -/
def same : IrType → IrType → Bool
  | .void, .void => true
  | .int bits, .int bits' => bits = bits'
  | .pointer target, .pointer target' => target.same target'
  | .array length element, .array length' element' => length = length' && element.same element'
  | .fn result params, .fn result' params' => result.same result' && sameAll params params'
  | _, _ => false

/-- Whether two lists of types are the same. -/
def sameAll : List IrType → List IrType → Bool
  | [], [] => true
  | first :: rest, first' :: rest' => first.same first' && sameAll rest rest'
  | _, _ => false

end

instance : BEq IrType := ⟨same⟩

mutual

theorem same_self : ∀ type : IrType, type.same type = true
  | .void => rfl
  | .int _ => by simp [same]
  | .pointer target => same_self target
  | .array _ element => by simp [same, same_self element]
  | .fn result params => by simp [same, same_self result, sameAll_self params]

theorem sameAll_self : ∀ types : List IrType, sameAll types types = true
  | [] => rfl
  | first :: rest => by simp [sameAll, same_self first, sameAll_self rest]

end

instance : ReflBEq IrType := ⟨@fun type => same_self type⟩

/-- A word. -/
abbrev i64 : IrType := .int 64

/-- A pointer to characters. -/
abbrev text : IrType := .pointer (.int 8)

mutual

/-- The type as it is written. -/
def render : IrType → String
  | .void => "void"
  | .int bits => "i" ++ toString bits
  | .pointer target => target.render ++ "*"
  | .array length element => "[" ++ toString length ++ " x " ++ element.render ++ "]"
  | .fn result params => result.render ++ " (" ++ String.intercalate ", " (renderAll params) ++ ")"

/-- The types of a list as they are written. -/
def renderAll : List IrType → List String
  | [] => []
  | type :: rest => type.render :: renderAll rest

end

/-- The type of storage of a width: a word, or else as many words as fit. A width
below zero is taken for a very large one. -/
def ofWidth (width : Int64) : IrType :=
  if width = Code.slotWidth then i64
  else .array (width / Code.slotWidth).toUInt64.toNat i64

mutual

/-- The type under which a value is passed around. A record that is as wide as a word
is a word. -/
def ofTy : Ty → IrType
  | .int | .bool => i64
  | .string => text
  | .void | .error => .void
  | .record _ size _ => ofWidth size
  | .fn params result => .fn (ofTy result) (ofParams params)

/-- The types of parameters. Records are passed by address. -/
def ofParams : List Ty → List IrType
  | [] => []
  | .record _ _ _ :: rest => .pointer i64 :: ofParams rest
  | type :: rest => ofTy type :: ofParams rest

end

end IrType

/-- A value. The type given with a global variable is that of its content. -/
inductive Value
  | word (value : Int)
  | numbered (number : Nat) (type : IrType)
  | param (name : String) (type : IrType)
  | global (name : String) (content : IrType)

/-- The type of a value. -/
def Value.type : Value → IrType
  | .word _ => IrType.i64
  | .numbered _ type | .param _ type => type
  | .global _ content => .pointer content

/-- The operations on two words. -/
inductive ArithOp
  | add | sub | mul | sdiv | and | or | xor
  deriving DecidableEq

/-- The comparisons of two words. -/
inductive Predicate
  | eq | ne | slt | sgt | sle | sge
  deriving DecidableEq

/-- The conversions. -/
inductive CastOp
  | zext | intToPtr | ptrToInt | bitcast
  deriving DecidableEq

/-- The instructions in use. -/
inductive Instr
  | alloca (type : IrType)
  | load (type : IrType) (source : Value)
  | store (value target : Value)
  | arith (op : ArithOp) (left right : Value)
  | compare (predicate : Predicate) (left right : Value)
  | cast (op : CastOp) (value : Value) (type : IrType)
  /-- The address of the first character of a string. -/
  | firstChar (string : Value) (content : IrType)
  | call (function : String) (result : IrType) (args : List Value)

/-- The type of the result of an instruction. -/
def Instr.type : Instr → IrType
  | .alloca type => .pointer type
  | .load type _ => type
  | .store _ _ => .void
  | .arith _ left _ => left.type
  | .compare _ _ _ => .int 1
  | .cast _ _ type => type
  | .firstChar _ _ => IrType.text
  | .call _ result _ => result

/-- Whether an instruction has a result. -/
def Instr.hasResult (instr : Instr) : Bool := instr.type != .void

/-- An instruction with the number of its result, if it has one. -/
structure Step where
  number : Option Nat
  instr : Instr

/-- What ends a block. -/
inductive Terminator
  | ret (value : Option Value)
  | jump (block : String)
  | branch (condition : Value) (ifTrue ifFalse : String)

/-- A block. -/
structure Block where
  name : String
  steps : List Step
  terminator : Terminator

/-- A function, which is only declared if it has no blocks. -/
structure Function where
  name : String
  result : IrType
  params : List Value
  blocks : List Block := []

/-- What a global variable starts with. -/
inductive Initial
  | zero (type : IrType)
  | text (bytes : List UInt8)

/-- The type of a global variable's content. -/
def Initial.type : Initial → IrType
  | .zero type => type
  | .text bytes => .array bytes.length (.int 8)

/-- A module. -/
structure Module where
  globals : List (String × Initial) := []
  functions : List Function := []

end Shanty.Target.Llvm
