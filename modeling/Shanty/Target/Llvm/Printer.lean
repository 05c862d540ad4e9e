/-
# Writing modules of LLVM

How a module is written as a text. A name is written as it is if it consists of
letters, digits and a few marks. Any other name stands in quotes, in which bytes that
are not printable are given by their hexadecimal codes; so does a name that could be
taken for a number.

A number is written in decimal, unless it is large and its hexadecimal digits show
that it is a round one in binary.
-/

import Shanty.Target.Llvm
import Shanty.Text.Number
import Shanty.Text.Utf8

namespace Shanty.Target.Llvm

open Text (Utf8.encode readNat?)

/-- A hexadecimal digit. -/
def hexDigit (value : Nat) : Char :=
  if value < 10 then Char.ofNat ('0'.toNat + value) else Char.ofNat ('A'.toNat + value - 10)

/-- A byte as it is written between quotes. -/
def quoteByte (byte : UInt8) : List Char :=
  let code := byte.toNat
  if 0x20 ≤ code && code < 0x7F && code ≠ '"'.toNat && code ≠ '\\'.toNat then [Char.ofNat code]
  else ['\\', hexDigit (code / 16), hexDigit (code % 16)]

/-- Bytes in quotes. -/
def quote (bytes : List UInt8) : String :=
  "\"" ++ String.ofList (bytes.flatMap quoteByte) ++ "\""

/-- Whether a character can be part of a name that is not quoted. -/
def isPlain (c : Char) : Bool :=
  'a' ≤ c && c ≤ 'z' || 'A' ≤ c && c ≤ 'Z' || '0' ≤ c && c ≤ '9' ||
    c = '$' || c = '.' || c = '_' || c = '-'

/-- Whether a name could be taken for the number of a value. -/
def isNumber (name : String) : Bool := (readNat? name.toList).any (· < 0x10000000000000000)

/-- A name as it is written. -/
def renderName (name : String) : String :=
  if name.toList.all isPlain && !isNumber name then name else quote (Utf8.encode name.toList)

/-- How many different digits a number has in a base, and how many it could have at
its length. -/
def variety (base value : Nat) : Nat × Nat :=
  let digits := Nat.toDigits base value
  (digits.eraseDups.length, min digits.length base)

/-- Whether a number is simpler to read in hexadecimal: it is large, at most half of
its hexadecimal digits differ, and their share is less than that of the decimal
digits by more than a fifth. -/
def readsBetterInHex (value : Nat) : Bool :=
  let (hex, hexMost) := variety 16 value
  let (decimal, decimalMost) := variety 10 value
  0x1000 ≤ value && 2 * hex ≤ hexMost &&
    (5 * hex + hexMost) * decimalMost < 5 * decimal * hexMost

/-- A number as it is written. -/
def renderWord : Int → String
  | .ofNat value =>
    if readsBetterInHex value then
      "u0x" ++ String.ofList ((Nat.toDigits 16 value).map Char.toUpper)
    else toString value
  | .negSucc value => toString (Int.negSucc value)

/-- A value as it is written. -/
def Value.render : Value → String
  | .word value => renderWord value
  | .numbered number _ => "%" ++ toString number
  | .param name _ => "%" ++ renderName name
  | .global name _ => "@" ++ renderName name

/-- A value with its type. -/
def Value.renderTyped (value : Value) : String := value.type.render ++ " " ++ value.render

/-- The name of an operation. -/
def ArithOp.name : ArithOp → String
  | .add => "add" | .sub => "sub" | .mul => "mul" | .sdiv => "sdiv"
  | .and => "and" | .or => "or" | .xor => "xor"

/-- The name of a comparison. -/
def Predicate.name : Predicate → String
  | .eq => "eq" | .ne => "ne" | .slt => "slt" | .sgt => "sgt" | .sle => "sle" | .sge => "sge"

/-- The name of a conversion. -/
def CastOp.name : CastOp → String
  | .zext => "zext" | .intToPtr => "inttoptr" | .ptrToInt => "ptrtoint" | .bitcast => "bitcast"

/-- Values with their types, separated by commas. -/
def renderList (values : List Value) : String :=
  String.intercalate ", " (values.map Value.renderTyped)

/-- An instruction as it is written, without its number. -/
def Instr.render : Instr → String
  | .alloca type => "alloca " ++ type.render
  | .load type source => "load " ++ type.render ++ ", " ++ source.renderTyped
  | .store value target => "store " ++ value.renderTyped ++ ", " ++ target.renderTyped
  | .arith op left right => op.name ++ " " ++ left.renderTyped ++ ", " ++ right.render
  | .compare predicate left right =>
    "icmp " ++ predicate.name ++ " " ++ left.renderTyped ++ ", " ++ right.render
  | .cast op value type => op.name ++ " " ++ value.renderTyped ++ " to " ++ type.render
  | .firstChar string content =>
    "getelementptr " ++ content.render ++ ", " ++ string.renderTyped ++ ", i64 0, i64 0"
  | .call function result args =>
    "call " ++ result.render ++ " @" ++ renderName function ++ "(" ++ renderList args ++ ")"

/-- A terminator as it is written. -/
def Terminator.render : Terminator → String
  | .ret none => "ret void"
  | .ret (some value) => "ret " ++ value.renderTyped
  | .jump block => "br label %" ++ renderName block
  | .branch condition ifTrue ifFalse =>
    "br " ++ condition.renderTyped ++ ", label %" ++ renderName ifTrue ++ ", label %" ++
      renderName ifFalse

/-- An instruction as a line. -/
def Step.render (step : Step) : String :=
  match step.number with
  | some number => "\t%" ++ toString number ++ " = " ++ step.instr.render ++ "\n"
  | none => "\t" ++ step.instr.render ++ "\n"

/-- A block as it is written. -/
def Block.render (block : Block) : String :=
  renderName block.name ++ ":\n" ++ String.join (block.steps.map Step.render) ++
    "\t" ++ block.terminator.render ++ "\n"

/-- A function as it is written. -/
def Function.render (function : Function) : String :=
  let header := function.result.render ++ " @" ++ renderName function.name ++ "(" ++
    renderList function.params ++ ")"
  match function.blocks with
  | [] => "declare " ++ header ++ "\n"
  | blocks => "define " ++ header ++ " \x7b\n" ++
    String.intercalate "\n" (blocks.map Block.render) ++ "\x7d\n"

/-- What a global variable starts with, as it is written. -/
def Initial.render : Initial → String
  | .zero (.int bits) => IrType.render (.int bits) ++ " 0"
  | .zero type => type.render ++ " zeroinitializer"
  | .text bytes => (Initial.text bytes).type.render ++ " c" ++ quote bytes

/-- A module as it is written. The functions are separated from each other, and from
the global variables, by empty lines. -/
def Module.render (module : Module) : String :=
  let globals := module.globals.map fun (name, initial) =>
    "@" ++ renderName name ++ " = global " ++ initial.render ++ "\n"
  let gap := if module.globals.isEmpty then "" else "\n"
  String.join globals ++ gap ++
    String.intercalate "\n" (module.functions.map Function.render)

end Shanty.Target.Llvm
