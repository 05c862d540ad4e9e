/-
# Emitting code for x86-64

Each quad becomes a few instructions by itself. Every value is fetched from its
storage and put back at once, so that no register holds anything from one quad to
the next, except for the arguments and the result of a call.

Arguments beyond the sixth are pushed. The stack is a multiple of sixteen at each
call, for which it is padded when the number of pushed arguments is odd. The number
of slots that have to go again after the call is all that one quad knows of those
before it.
-/

import Shanty.Target.X64

namespace Shanty.Target.X64

open Code (Operand Quad Procedure Program slotWidth entryLabel stringLabel)

/-- The registers of the first arguments. -/
def argRegs : List Reg := [.rdi, .rsi, .rdx, .rcx, .r8, .r9]

/-- Where the frame of a procedure starts: the frame pointer stands above the return
address and the frame pointer of the caller. -/
def frameStart : Int64 := 16

/-- The placement after laying out the frame of a procedure. -/
def layOut (placement : Placement) (procedure : Procedure) : Placement :=
  Target.layOut .x64 frameStart procedure.widths placement procedure

/-- A number as an argument. -/
def number (value : Int64) : Arg := .imm (toString value)

/-- Moves the value of an operand into a register. -/
def load (placement : Placement) (operand : Operand) (reg : Reg) :
    Except Fault (List Instr) :=
  match operand with
  | .constant text => .ok [.mov (.imm text) (.reg reg)]
  | .string index => .ok [.lea (.data (stringLabel index)) reg]
  | .address temp =>
    .ok [.mov (.mem (.storage (placement temp.slot))) (.reg .r11),
      .mov (.mem (.through .r11)) (.reg reg)]
  | operand => do
    let location ← placement.locate operand
    return [.mov (.mem (.storage location)) (.reg reg)]

/-- Moves a register into the storage of an operand. -/
def store (placement : Placement) (reg : Reg) (operand : Operand) :
    Except Fault (List Instr) :=
  match operand with
  | .address temp =>
    .ok [.mov (.mem (.storage (placement temp.slot))) (.reg .r11),
      .mov (.reg reg) (.mem (.through .r11))]
  | operand => do
    let location ← placement.locate operand
    return [.mov (.reg reg) (.mem (.storage location))]

/-- Moves the address of an operand into a register. An address temporary holds the
address itself. -/
def addressOf (placement : Placement) (operand : Operand) (reg : Reg) :
    Except Fault (List Instr) :=
  match operand with
  | .address temp => .ok [.mov (.mem (.storage (placement temp.slot))) (.reg reg)]
  | operand => do
    let location ← placement.locate operand
    return [.lea (.storage location) reg]

/-- The offsets of the slots of a piece of storage. -/
def slotOffsets (width : Int64) : List Int64 :=
  (List.range ((width.toInt + 7).tdiv slotWidth.toInt).toNat).map fun index =>
    slotWidth * Int64.ofNat index

/-- Copies the record that `%r10` points to into the storage of an operand. -/
def copyRecord (placement : Placement) (target : Operand) : Except Fault (List Instr) := do
  let address ← addressOf placement target .r11
  let width ← target.width
  return address ++ (slotOffsets width).flatMap fun offset =>
    [.mov (.mem (.offset offset .r10)) (.reg .rax), .mov (.reg .rax) (.mem (.offset offset .r11))]

/-- The instructions that apply an operation to `%rax` and `%rbx`, with the result
in `%rax`. -/
def apply : Code.BinaryOp → List Instr
  | .add => [.arith .add (.reg .rbx) (.reg .rax)]
  | .sub => [.arith .sub (.reg .rbx) (.reg .rax)]
  | .mult => [.arith .imul (.reg .rbx) (.reg .rax)]
  | .and => [.arith .and (.reg .rbx) (.reg .rax)]
  | .or => [.arith .or (.reg .rbx) (.reg .rax)]
  | .div => [.extendSign, .idiv .rbx]
  | .eq => comparison .equal
  | .neq => comparison .notEqual
  | .lt => comparison .less
  | .gt => comparison .greater
  | .lte => comparison .lessEqual
  | .gte => comparison .greaterEqual
where
  /-- Compares `%rax` with `%rbx`. -/
  comparison (condition : Condition) : List Instr :=
    [.cmp (.reg .rbx) (.reg .rax), .setLow condition, .extendLow]

/-- The instructions of an operation on two operands. Subtracting zero, multiplying
by one and subtracting one have shorter forms. -/
def binary (placement : Placement) (op : Code.BinaryOp) (target left right : Operand) :
    Except Fault (List Instr) := do
  let first ← load placement left .rax
  if right.isConstant "0" && op = .sub || right.isConstant "1" && op = .mult then
    return first ++ (← store placement .rax target)
  if right.isConstant "1" && op = .sub then
    return first ++ [.dec .rax] ++ (← store placement .rax target)
  let second ← load placement right .rbx
  return first ++ second ++ apply op ++ (← store placement .rax target)

/-- The instructions of an operation on one operand. -/
def unary (placement : Placement) (op : Code.UnaryOp) (target source : Operand) :
    Except Fault (List Instr) := do
  let fetch ← load placement source .rax
  let change : Instr := match op with
    | .neg => .neg .rax
    | .not => .arith .xor (.imm "1") (.reg .rax)
  return fetch ++ [change] ++ (← store placement .rax target)

/-- The instructions of a conditional jump. A constant decides it beforehand. -/
def ifZero (placement : Placement) (condition : Operand) (label : String) :
    Except Fault (List Instr) :=
  match condition with
  | .constant text => .ok (if text = "0" then [.jump label] else [])
  | condition => do
    return (← load placement condition .rax) ++
      [.cmp (.imm "0") (.reg .rax), .jumpIfEqual label]

/-- The register of the argument at a position, if it has one. Positions count from
one. -/
def argReg (position : Int) : Except Fault (Option Reg) :=
  if position < 1 then .error (noSuchPosition position)
  else .ok argRegs[position.toNat - 1]?

/-- Passes an argument and answers whether it was pushed. -/
def setArg (placement : Placement) (position : Int) (source : Operand) (type : Ty) :
    Except Fault (List Instr × Bool) := do
  let reg? ← argReg position
  let reg := reg?.getD .rax
  let fetch ← if type.isRecord then addressOf placement source reg else load placement source reg
  match reg? with
  | some _ => return (fetch, false)
  | none => return (fetch ++ [.push .rax], true)

/-- Receives an argument. Those that were pushed lie above the frame, the last one
lowest. -/
def getArg (placement : Placement) (position count : Int) (target : Operand) (isRecord : Bool) :
    Except Fault (List Instr) := do
  let reg? ← argReg position
  let source : Arg := match reg? with
    | some reg => .reg reg
    | none => .mem (.offset (slotWidth * Int64.ofInt (count - position)) .rbp)
  if isRecord then
    return [.mov source (.reg .r10)] ++ (← copyRecord placement target)
  match reg? with
  | some reg => store placement reg target
  | none => return [.mov source (.reg .rax)] ++ (← store placement .rax target)

/-- The instructions of a quad, given the size of the frame and the number of slots
that are on the stack for the next call, and that number afterwards. -/
def instr (placement : Placement) (frame : Int64) (pushed : Nat) :
    Code.Instr → Except Fault (List Instr × Nat)
  | .enter _ => .ok ([.push .rbp, .mov (.reg .rsp) (.reg .rbp),
      .arith .add (number frameStart) (.reg .rbp),
      .arith .sub (number frame) (.reg .rsp)], pushed)
  | .leave _ => .ok ([.arith .add (number frame) (.reg .rsp), .pop .rbp, .ret], pushed)
  | .binary op target left right => do return (← binary placement op target left right, pushed)
  | .unary op target source => do return (← unary placement op target source, pushed)
  | .assign target source => do
    let fetch ← load placement source .rax
    return (fetch ++ (← store placement .rax target), pushed)
  | .index target base offset => do
    let fetch ← addressOf placement base .rax
    return (fetch ++ [.arith .add (.imm offset) (.reg .rax),
      .mov (.reg .rax) (.mem (.storage (placement target.slot)))], pushed)
  | .goto target => .ok ([.jump target.name], pushed)
  | .ifZero condition target => do return (← ifZero placement condition target.name, pushed)
  | .nop => .ok ([.nop], pushed)
  | .setArg position source type => do
    let (code, onStack) ← setArg placement position source type
    return (code, if onStack then pushed + 1 else pushed)
  | .call callee =>
    let code : List Instr := [.call (entryLabel callee)]
    let release : Instr := .arith .add (number (Int64.ofNat pushed * slotWidth)) (.reg .rsp)
    .ok (if 0 < pushed then code ++ [release] else code, 0)
  | .getArg position count target isRecord => do
    return (← getArg placement position count target isRecord, pushed)
  | .setRet source isRecord => do
    return (← if isRecord then addressOf placement source .rax else load placement source .rax,
      pushed)
  | .getRet target isRecord => do
    if isRecord then
      return ([.mov (.reg .rax) (.reg .r10)] ++ (← copyRecord placement target), pushed)
    return (← store placement .rax target, pushed)
  | .output source type => do
    return ((← load placement source .rdi) ++ [.call (outputRoutine type)], pushed)
  | .input target type => do
    return ([.call (inputRoutine type)] ++ (← store placement .rax target), pushed)

/-- Whether the stack has to be padded before the first of the given quads: it passes
the first argument on the stack, and the number of those that follow is odd. -/
def needsPadding : List Quad → Bool
  | [] => false
  | quad :: rest =>
    match quad.instr with
    | .setArg position _ _ =>
      position = argRegs.length + 1 &&
        ((quad :: rest).takeWhile (·.instr.isSetArg)).length % 2 = 1
    | _ => false

/-- The lines of a list of quads. -/
def quads (placement : Placement) (frame : Int64) (pushed : Nat) :
    List Quad → Except Fault (List (Line Instr) × Nat)
  | [] => .ok ([], pushed)
  | quad :: rest => do
    let padded := needsPadding (quad :: rest)
    let padding : List Instr := if padded then [.arith .sub (number slotWidth) (.reg .rsp)] else []
    let (code, pushed) ← instr placement frame (if padded then pushed + 1 else pushed) quad.instr
    let (more, pushed) ← quads placement frame pushed rest
    return (labelLines quad ++ (padding ++ code).map .instr ++ more, pushed)

/-- The lines of a list of procedures, and the placement as far as it came. -/
def procedures (placement : Placement) (pushed : Nat) :
    List Procedure → Placement × Except Fault (List (Line Instr))
  | [] => (placement, .ok [])
  | procedure :: rest =>
    let placement := layOut placement procedure
    match quads placement procedure.frameSize pushed procedure.quads with
    | .error fault => (placement, .error fault)
    | .ok (lines, pushed) =>
      let (placement, more) := procedures placement pushed rest
      (placement, more.map (lines ++ ·))

/-- The lines that define the data of a program. -/
def dataLines (program : Program) : List (Line Instr) :=
  let strings := program.strings.mapIdx fun index text =>
    .directive (stringLabel index ++ ": .asciz " ++ text)
  let globals := (program.globals.flatMap globalLabels).map fun label =>
    .directive (label ++ ": .quad 0")
  [.directive ".data"] ++ strings ++ [.directive ".align 8"] ++ globals

/-- The code of a program, and the placement as far as it came. -/
def emit (program : Program) (placement : Placement) : Placement × Except Fault String :=
  let (placement, lines) := procedures (layOutGlobals .x64 placement program) 0 program.procedures
  (placement, lines.map fun lines => renderLines Instr.render
    (dataLines program ++ [.directive ".globl main", .directive ".text"] ++ lines))

end Shanty.Target.X64
