/-
# Quads

A quad is one instruction of the intermediate code. It may carry labels, by which
jumps refer to it, and a comment.

Labels are numbered through the whole program, except that a procedure is entered
at a label made from its name. The two kinds of labels are written differently, so
two labels are written alike only if they are the same.
-/

import Shanty.Code.Operand

namespace Shanty.Code

/-- The label at which the procedure with a name is entered. -/
def entryLabel (procedure : String) : String :=
  if procedure = "main" then procedure else "fun_" ++ procedure

/-- A label. -/
inductive Label
  | entry (procedure : String)
  | numbered (number : Nat)
  deriving DecidableEq

/-- The label as it is written. -/
def Label.name : Label → String
  | .entry procedure => entryLabel procedure
  | .numbered number => "lbl_" ++ toString number

/-- The operations on two words. -/
inductive BinaryOp
  | add | sub | div | mult
  | eq | neq | lt | gt | lte | gte
  | or | and
  deriving DecidableEq

/-- All operations on two words. -/
def BinaryOp.all : List BinaryOp :=
  [.add, .sub, .div, .mult, .eq, .neq, .lt, .gt, .lte, .gte, .or, .and]

/-- The name of an operation. -/
def BinaryOp.name : BinaryOp → String
  | .add => "ADD64" | .sub => "SUB64" | .div => "DIV64" | .mult => "MULT64"
  | .eq => "EQ64" | .neq => "NEQ64"
  | .lt => "LT64" | .gt => "GT64" | .lte => "LTE64" | .gte => "GTE64"
  | .or => "OR64" | .and => "AND64"

/-- Whether an operation answers a truth value about the order of its operands. -/
def BinaryOp.isComparison : BinaryOp → Bool
  | .eq | .neq | .lt | .gt | .lte | .gte => true
  | _ => false

/-- The operations on one word. -/
inductive UnaryOp
  | neg
  | not
  deriving DecidableEq

/-- The name of an operation. -/
def UnaryOp.name : UnaryOp → String
  | .neg => "NEG64"
  | .not => "NOT64"

/-- What a quad does. Arguments are counted from one. A record is passed and
returned by its address, which the receiver copies from. -/
inductive Instr
  | binary (op : BinaryOp) (target left right : Operand)
  | unary (op : UnaryOp) (target source : Operand)
  | assign (target source : Operand)
  /-- Puts the address of a field into an address temporary. -/
  | index (target : Temp) (base : Operand) (offset : String)
  | goto (target : Label)
  | ifZero (condition : Operand) (target : Label)
  | nop
  | call (callee : String)
  | enter (procedure : String)
  | leave (procedure : String)
  | setArg (position : Int) (source : Operand) (type : Ty)
  | getArg (position count : Int) (target : Operand) (isRecord : Bool)
  | setRet (source : Operand) (isRecord : Bool)
  | getRet (target : Operand) (isRecord : Bool)
  | output (source : Operand) (type : Ty)
  | input (target : Operand) (type : Ty)

namespace Instr

/-- The label that an instruction may jump to. -/
def jumpTarget? : Instr → Option Label
  | .goto target | .ifZero _ target => some target
  | _ => none

/-- Whether an instruction does nothing. -/
def isNop : Instr → Bool
  | .nop => true
  | _ => false

/-- Whether an instruction passes an argument. -/
def isSetArg : Instr → Bool
  | .setArg _ _ _ => true
  | _ => false

/-- The instruction as it is written in listings. -/
def render : Instr → Except Fault String
  | .binary op target left right =>
    return (← target.render) ++ " := " ++ (← left.render) ++ " " ++ op.name ++ " " ++
      (← right.render)
  | .unary op target source =>
    return (← target.render) ++ " := " ++ op.name ++ " " ++ (← source.render)
  | .assign target source => return (← target.render) ++ " := " ++ (← source.render)
  | .index target base offset =>
    return Operand.renderAddress target ++ " := " ++ (← base.renderPlace) ++ " ADD64 " ++ offset
  | .goto target => return "goto " ++ target.name
  | .ifZero condition target =>
    return "IFZ " ++ (← condition.render) ++ " GOTO " ++ target.name
  | .nop => return "nop"
  | .call callee => return "call " ++ callee
  | .enter procedure => return "enter " ++ procedure
  | .leave procedure => return "leave " ++ procedure
  | .setArg position source _ => return "setarg " ++ toString position ++ " " ++ (← source.render)
  | .getArg position _ target _ => return "getarg " ++ toString position ++ " " ++ (← target.render)
  | .setRet source _ => return "setret " ++ (← source.render)
  | .getRet target _ => return "getret " ++ (← target.render)
  | .output source _ => return "REPORT " ++ (← source.render)
  | .input target _ => return "RECEIVE " ++ (← target.render)

end Instr

/-- An instruction with its labels and a comment. The tag means nothing to the
library: who wants to follow a quad through a transformation may set it. -/
structure Quad where
  labels : List Label := []
  comment : String := ""
  instr : Instr
  tag : Nat := 0

namespace Quad

/-- A quad that bears nothing but its instruction. -/
def plain (instr : Instr) : Quad := { instr }

/-- A quad that does nothing but carry a label. -/
def landing (label : Label) : Quad := { labels := [label], instr := .nop }

/-- The quad with more labels, after those that it has. -/
def addLabels (quad : Quad) (labels : List Label) : Quad :=
  { quad with labels := quad.labels ++ labels }

/-- Whether the quad carries a label. -/
def hasLabel (quad : Quad) (label : Label) : Bool := quad.labels.contains label

/-- The column at which instructions start in a listing. -/
def instrColumn : Nat := 12

/-- A text filled up with spaces to a number of bytes. -/
def padBytes (text : String) (size : Nat) : String :=
  text ++ String.ofList (List.replicate (size - text.utf8ByteSize) ' ')

/-- The labels as they are written in front of a quad. -/
def labelColumn (labels : List Label) : String :=
  match labels with
  | [] => "  "
  | _ => String.intercalate "," (labels.map Label.name) ++ ": "

/-- The quad as a line of a listing, which in a verbose one ends in the comment. -/
def render (quad : Quad) (verbose : Bool) : Except Fault String := do
  let text ← quad.instr.render
  let comment := if verbose && quad.comment ≠ "" then "  #" ++ quad.comment else ""
  return padBytes (labelColumn quad.labels) instrColumn ++ text ++ comment

/-- A quad without labels gets none from an empty list. -/
@[simp]
theorem addLabels_nil (quad : Quad) : quad.addLabels [] = quad := by
  simp [addLabels]

end Quad

end Shanty.Code
