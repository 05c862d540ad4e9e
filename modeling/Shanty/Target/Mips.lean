/-
# Code for MIPS

The instructions of MIPS that emitted programs are made of, and how the simulator's
assembler wants them written. Values pass through `$t0` and `$t1`, addresses through
`$t8` and `$t9`, the first arguments of a call through four registers of their own.
-/

import Shanty.Target.Storage

namespace Shanty.Target.Mips

/-- The registers in use. -/
inductive Reg
  | zero | v0 | a0 | a1 | a2 | a3 | t0 | t1 | t8 | t9 | sp | fp | ra
  deriving DecidableEq

/-- The register as it is written. -/
def Reg.render : Reg → String
  | .zero => "$zero" | .v0 => "$v0"
  | .a0 => "$a0" | .a1 => "$a1" | .a2 => "$a2" | .a3 => "$a3"
  | .t0 => "$t0" | .t1 => "$t1" | .t8 => "$t8" | .t9 => "$t9"
  | .sp => "$sp" | .fp => "$fp" | .ra => "$ra"

/-- A place in memory. -/
inductive Mem
  /-- The storage of an operand. -/
  | storage (location : Location)
  /-- The data with a label. -/
  | data (label : String)
  /-- A number of bytes above the place that a register points to. -/
  | offset (bytes : Int64) (reg : Reg)

/-- The place as it is written. -/
def Mem.render : Mem → String
  | .storage location => location.render
  | .data label => label
  | .offset bytes reg => toString bytes ++ "(" ++ reg.render ++ ")"

/-- The instructions in use. -/
inductive Instr
  /-- An operation on two registers. -/
  | binary (op : Code.BinaryOp) (target first second : Reg)
  | neg (target source : Reg)
  /-- Exclusive or with one. -/
  | flip (target source : Reg)
  /-- Whether the second register exceeds the first one, both unsigned. -/
  | exceeds (target first second : Reg)
  | addImm (target source : Reg) (amount : Int64)
  /-- Moves the stack pointer down. -/
  | reserve (bytes : Int64)
  | move (target source : Reg)
  /-- Loads a number, as it is written. -/
  | loadImm (target : Reg) (text : String)
  | loadAddress (target : Reg) (source : Mem)
  | loadWord (target : Reg) (source : Mem)
  | storeWord (source : Reg) (target : Mem)
  | jump (label : String)
  | jumpIfZero (source : Reg) (label : String)
  | call (label : String)
  | ret
  | syscall
  | nop

/-- The mnemonic of an operation. -/
def mnemonic : Code.BinaryOp → String
  | .add => "add" | .sub => "sub" | .mult => "mul" | .div => "div"
  | .and => "and" | .or => "or"
  | .eq => "seq" | .neq => "sne" | .lt => "slt" | .gt => "sgt" | .lte => "sle" | .gte => "sge"

/-- The instruction as it is written. -/
def Instr.render : Instr → String
  | .binary op target first second =>
    mnemonic op ++ " " ++ target.render ++ ", " ++ first.render ++ ", " ++ second.render
  | .neg target source => "neg " ++ target.render ++ ", " ++ source.render
  | .flip target source => "xori " ++ target.render ++ ", " ++ source.render ++ ", 1"
  | .exceeds target first second =>
    "sltu " ++ target.render ++ ", " ++ first.render ++ ", " ++ second.render
  | .addImm target source amount =>
    "addi " ++ target.render ++ ", " ++ source.render ++ ", " ++ toString amount
  | .reserve bytes => "addi $sp, $sp, -" ++ toString bytes
  | .move target source => "move " ++ target.render ++ ", " ++ source.render
  | .loadImm target text => "li " ++ target.render ++ ", " ++ text
  | .loadAddress target source => "la " ++ target.render ++ ", " ++ source.render
  | .loadWord target source => "lw " ++ target.render ++ ", " ++ source.render
  | .storeWord source target => "sw " ++ source.render ++ ", " ++ target.render
  | .jump label => "j " ++ label
  | .jumpIfZero source label => "beq " ++ source.render ++ ", $zero, " ++ label
  | .call label => "jal " ++ label
  | .ret => "jr $ra"
  | .syscall => "syscall"
  | .nop => "nop"

end Shanty.Target.Mips
