/-
# Code for x86-64

The instructions of x86-64 that emitted programs are made of, and how the assembler
wants them written. Values pass through `%rax` and `%rbx`, addresses through `%r10`
and `%r11`, the first arguments of a call through six registers of their own.
-/

import Shanty.Target.Storage

namespace Shanty.Target.X64

/-- The registers in use. -/
inductive Reg
  | rax | rbx | rcx | rdx | rdi | rsi | rbp | rsp | r8 | r9 | r10 | r11
  deriving DecidableEq

/-- The register as it is written. -/
def Reg.render : Reg → String
  | .rax => "%rax" | .rbx => "%rbx" | .rcx => "%rcx" | .rdx => "%rdx"
  | .rdi => "%rdi" | .rsi => "%rsi" | .rbp => "%rbp" | .rsp => "%rsp"
  | .r8 => "%r8" | .r9 => "%r9" | .r10 => "%r10" | .r11 => "%r11"

/-- A place in memory. -/
inductive Mem
  /-- The storage of an operand. -/
  | storage (location : Location)
  /-- The data with a label. -/
  | data (label : String)
  /-- The place that a register points to. -/
  | through (reg : Reg)
  /-- A number of bytes above the place that a register points to. -/
  | offset (bytes : Int64) (reg : Reg)

/-- The place as it is written. -/
def Mem.render : Mem → String
  | .storage location => location.render
  | .data label => label ++ "(%rip)"
  | .through reg => "(" ++ reg.render ++ ")"
  | .offset bytes reg => toString bytes ++ "(" ++ reg.render ++ ")"

/-- What an instruction computes with. -/
inductive Arg
  | reg (reg : Reg)
  /-- A number, as it is written. -/
  | imm (text : String)
  | mem (mem : Mem)

/-- The argument as it is written. -/
def Arg.render : Arg → String
  | .reg r => r.render
  | .imm text => "$" ++ text
  | .mem place => place.render

/-- The operations with two arguments, of which the second is the destination. -/
inductive ArithOp
  | add | sub | imul | and | or | xor
  deriving DecidableEq

/-- The mnemonic of an operation. -/
def ArithOp.mnemonic : ArithOp → String
  | .add => "addq" | .sub => "subq" | .imul => "imulq"
  | .and => "andq" | .or => "orq" | .xor => "xorq"

/-- The conditions that a comparison can be asked about. All are about signed
numbers. -/
inductive Condition
  | equal | notEqual | less | greater | lessEqual | greaterEqual
  deriving DecidableEq

/-- The mnemonic of the instruction that keeps a condition in a byte. -/
def Condition.mnemonic : Condition → String
  | .equal => "sete" | .notEqual => "setne" | .less => "setl" | .greater => "setg"
  | .lessEqual => "setle" | .greaterEqual => "setge"

/-- The instructions in use. -/
inductive Instr
  | mov (source target : Arg)
  /-- Puts the address of a place into a register. -/
  | lea (source : Mem) (target : Reg)
  | arith (op : ArithOp) (source target : Arg)
  /-- Compares the second argument with the first one. -/
  | cmp (first second : Arg)
  /-- Sets the lowest byte of `%rax` to whether a condition holds. -/
  | setLow (condition : Condition)
  /-- Extends the lowest byte of `%rax` with zeros. -/
  | extendLow
  | dec (target : Reg)
  | neg (target : Reg)
  /-- Extends the sign of `%rax` into `%rdx`. -/
  | extendSign
  /-- Divides `%rdx:%rax` by a register. -/
  | idiv (divisor : Reg)
  | push (source : Reg)
  | pop (target : Reg)
  | jump (label : String)
  | jumpIfEqual (label : String)
  | call (label : String)
  | ret
  | nop

/-- The instruction as it is written. -/
def Instr.render : Instr → String
  | .mov source target => "movq " ++ source.render ++ ", " ++ target.render
  | .lea source target => "leaq " ++ source.render ++ ", " ++ target.render
  | .arith op source target => op.mnemonic ++ " " ++ source.render ++ ", " ++ target.render
  | .cmp first second => "cmpq " ++ first.render ++ ", " ++ second.render
  | .setLow condition => condition.mnemonic ++ " %al"
  | .extendLow => "movzbq %al, %rax"
  | .dec target => "decq " ++ target.render
  | .neg target => "negq " ++ target.render
  | .extendSign => "cqto"
  | .idiv divisor => "idivq " ++ divisor.render
  | .push source => "pushq " ++ source.render
  | .pop target => "popq " ++ target.render
  | .jump label => "jmp " ++ label
  | .jumpIfEqual label => "je " ++ label
  | .call label => "callq " ++ label
  | .ret => "retq"
  | .nop => "nop"

end Shanty.Target.X64
