/-
# Emitting code for MIPS

Each quad becomes a few instructions by itself, much as for other machines. A slot
is a word of four bytes here, so all widths and offsets are halved. Input and output
are system calls of the simulator, except that a truth value is written by a helper
routine, which is part of the code if and only if it is used.
-/

import Shanty.Target.Mips
import Shanty.Text.Number

namespace Shanty.Target.Mips

open Code (Operand Quad Procedure Program entryLabel stringLabel alignUp)

/-- The registers of the first arguments. -/
def argRegs : List Reg := [.a0, .a1, .a2, .a3]

/-- The size in bytes of a word. -/
def wordSize : Int64 := 4

/-- Where the frame of a procedure starts: below the return address and the frame
pointer of the caller. -/
def frameStart : Int64 := 8

/-- The width on this machine of what has a width in the intermediate code. -/
def halve (width : Int64) : Int64 := width / 2

/-- The widths of the pieces of a frame on this machine. -/
def widths (procedure : Procedure) : List Int64 := procedure.widths.map halve

/-- The placement after laying out the frame of a procedure. -/
def layOut (placement : Placement) (procedure : Procedure) : Placement :=
  Target.layOut .mips frameStart (widths procedure) placement procedure

/-- The size of the frame of a procedure, as a multiple of eight. -/
def frameSize (procedure : Procedure) : Int64 :=
  alignUp ((widths procedure).foldr (· + ·) frameStart) 8

/-- The codes of the system calls. -/
inductive Service
  | printInt
  | printString
  | readInt
  | exit

/-- The number by which a system call is asked for. -/
def Service.code : Service → String
  | .printInt => "1"
  | .printString => "4"
  | .readInt => "5"
  | .exit => "17"

/-- The instructions of a system call. -/
def service (call : Service) : List Instr := [.loadImm .v0 call.code, .syscall]

/-- The name of the routine that writes the truth value in `$a0`. -/
def boolRoutine : String := "sys_boolstr"

/-- Moves the value of an operand into a register. -/
def load (placement : Placement) (operand : Operand) (reg : Reg) :
    Except Fault (List Instr) :=
  match operand with
  | .constant text => .ok [.loadImm reg text]
  | .string index => .ok [.loadAddress reg (.data (stringLabel index))]
  | .address temp =>
    .ok [.loadWord .t9 (.storage (placement temp.slot)), .loadWord reg (.offset 0 .t9)]
  | operand => do
    let location ← placement.locate operand
    return [.loadWord reg (.storage location)]

/-- Moves a register into the storage of an operand. -/
def store (placement : Placement) (reg : Reg) (operand : Operand) :
    Except Fault (List Instr) :=
  match operand with
  | .address temp =>
    .ok [.loadWord .t9 (.storage (placement temp.slot)), .storeWord reg (.offset 0 .t9)]
  | operand => do
    let location ← placement.locate operand
    return [.storeWord reg (.storage location)]

/-- Moves the address of an operand into a register. An address temporary holds the
address itself. -/
def addressOf (placement : Placement) (operand : Operand) (reg : Reg) :
    Except Fault (List Instr) :=
  match operand with
  | .address temp => .ok [.loadWord reg (.storage (placement temp.slot))]
  | operand => do
    let location ← placement.locate operand
    return [.loadAddress reg (.storage location)]

/-- The offsets of the words of a piece of storage. -/
def wordOffsets (width : Int64) : List Int64 :=
  (List.range ((width.toInt + 3).tdiv wordSize.toInt).toNat).map fun index =>
    wordSize * Int64.ofNat index

/-- Copies the record that `$t8` points to into the storage of an operand. -/
def copyRecord (placement : Placement) (target : Operand) : Except Fault (List Instr) := do
  let address ← addressOf placement target .t9
  let width ← target.width
  return address ++ (wordOffsets (halve width)).flatMap fun offset =>
    [.loadWord .t0 (.offset offset .t8), .storeWord .t0 (.offset offset .t9)]

/-- The register of the argument at a position, if it has one. Positions count from
one. -/
def argReg (position : Int) : Except Fault (Option Reg) :=
  if position < 1 then .error (noSuchPosition position)
  else .ok argRegs[position.toNat - 1]?

/-- Passes an argument and answers whether it was pushed. -/
def setArg (placement : Placement) (position : Int) (source : Operand) (type : Ty) :
    Except Fault (List Instr × Bool) := do
  let reg? ← argReg position
  let reg := reg?.getD .t0
  let fetch ← if type.isRecord then addressOf placement source reg else load placement source reg
  match reg? with
  | some _ => return (fetch, false)
  | none => return (fetch ++ [.reserve wordSize, .storeWord .t0 (.offset 0 .sp)], true)

/-- Receives an argument. Those that were pushed lie above the frame, the last one
lowest. -/
def getArg (placement : Placement) (position count : Int) (target : Operand) (isRecord : Bool) :
    Except Fault (List Instr) := do
  let reg? ← argReg position
  let reg := reg?.getD .t0
  let fetch : List Instr := match reg? with
    | some _ => []
    | none => [.loadWord .t0 (.offset (wordSize * Int64.ofInt (count - position)) .fp)]
  if isRecord then return fetch ++ [.move .t8 reg] ++ (← copyRecord placement target)
  return fetch ++ (← store placement reg target)

/-- The instructions that write the value in `$a0`, which has a type. -/
def write : Ty → List Instr
  | .bool => [.call boolRoutine]
  | .string => service .printString
  | _ => service .printInt

/-- The instructions of a quad, given the size of the frame and the number of words
that are on the stack for the next call, and that number afterwards. -/
def instr (placement : Placement) (frame : Int64) (pushed : Nat) :
    Code.Instr → Except Fault (List Instr × Nat)
  | .enter _ => .ok ([.reserve frame, .storeWord .ra (.offset (frame - 4) .sp),
      .storeWord .fp (.offset (frame - 8) .sp), .addImm .fp .sp frame], pushed)
  | .leave _ => .ok ([.loadWord .ra (.offset (frame - 4) .sp),
      .loadWord .fp (.offset (frame - 8) .sp), .addImm .sp .sp frame, .ret], pushed)
  | .binary op target left right => do
    let first ← load placement left .t0
    let second ← load placement right .t1
    return (first ++ second ++ [.binary op .t0 .t0 .t1] ++ (← store placement .t0 target), pushed)
  | .unary op target source => do
    let fetch ← load placement source .t0
    let change : Instr := match op with
      | .neg => .neg .t0 .t0
      | .not => .flip .t0 .t0
    return (fetch ++ [change] ++ (← store placement .t0 target), pushed)
  | .assign target source => do
    let fetch ← load placement source .t0
    return (fetch ++ (← store placement .t0 target), pushed)
  | .index target base offset => do
    match Text.readInt64? offset with
    | none => .error (.internal ("bad field offset `" ++ offset ++ "`"))
    | some bytes =>
      let fetch ← addressOf placement base .t0
      return (fetch ++ [.addImm .t0 .t0 (halve (Int64.ofInt bytes)),
        .storeWord .t0 (.storage (placement target.slot))], pushed)
  | .goto target => .ok ([.jump target.name], pushed)
  | .ifZero (.constant text) target => .ok (if text = "0" then [.jump target.name] else [], pushed)
  | .ifZero condition target => do
    return ((← load placement condition .t0) ++ [.jumpIfZero .t0 target.name], pushed)
  | .nop => .ok ([.nop], pushed)
  | .setArg position source type => do
    let (code, onStack) ← setArg placement position source type
    return (code, if onStack then pushed + 1 else pushed)
  | .call callee =>
    let code : List Instr := [.call (entryLabel callee)]
    .ok (if 0 < pushed then code ++ [.addImm .sp .sp (Int64.ofNat pushed * wordSize)] else code, 0)
  | .getArg position count target isRecord => do
    return (← getArg placement position count target isRecord, pushed)
  | .setRet source isRecord => do
    return (← if isRecord then addressOf placement source .v0 else load placement source .v0,
      pushed)
  | .getRet target isRecord => do
    if isRecord then return ([.move .t8 .v0] ++ (← copyRecord placement target), pushed)
    return (← store placement .v0 target, pushed)
  | .output source type => do return ((← load placement source .a0) ++ write type, pushed)
  | .input target type => do
    let normalize : List Instr := match type with
      | .bool => [.exceeds .v0 .zero .v0]
      | _ => []
    return (service .readInt ++ normalize ++ (← store placement .v0 target), pushed)

/-- The lines of a list of quads. -/
def quads (placement : Placement) (frame : Int64) (pushed : Nat) :
    List Quad → Except Fault (List (Line Instr) × Nat)
  | [] => .ok ([], pushed)
  | quad :: rest => do
    let (code, pushed) ← instr placement frame pushed quad.instr
    let (more, pushed) ← quads placement frame pushed rest
    return (labelLines quad ++ code.map .instr ++ more, pushed)

/-- The lines of a list of procedures, and the placement as far as it came. -/
def procedures (placement : Placement) (pushed : Nat) :
    List Procedure → Placement × Except Fault (List (Line Instr))
  | [] => (placement, .ok [])
  | procedure :: rest =>
    let placement := layOut placement procedure
    match quads placement (frameSize procedure) pushed procedure.quads with
    | .error fault => (placement, .error fault)
    | .ok (lines, pushed) =>
      let (placement, more) := procedures placement pushed rest
      (placement, more.map (lines ++ ·))

/-- Whether a quad writes a truth value. -/
def writesBool (quad : Quad) : Bool :=
  match quad.instr with
  | .output _ .bool => true
  | _ => false

/-- Whether a program writes truth values. -/
def usesBoolRoutine (program : Program) : Bool :=
  program.procedures.any fun procedure => procedure.body.any writesBool

/-- The lines of the routine that writes the truth value in `$a0`. -/
def boolRoutineLines : List (Line Instr) :=
  [.label boolRoutine,
    .instr (.jumpIfZero .a0 "sys_boolstr_false"),
    .instr (.loadAddress .a0 (.data "str_true")),
    .instr (.jump "sys_boolstr_print"),
    .label "sys_boolstr_false",
    .instr (.loadAddress .a0 (.data "str_false")),
    .label "sys_boolstr_print"] ++
    (service .printString).map .instr ++ [.instr .ret]

/-- The lines that define the data of a program. -/
def dataLines (program : Program) : List (Line Instr) :=
  let strings := program.strings.mapIdx fun index text =>
    .directive (stringLabel index ++ ": .asciiz " ++ text)
  let helpers := if usesBoolRoutine program then
    [.directive "str_true: .asciiz \"true\"", .directive "str_false: .asciiz \"false\""] else []
  let globals := (program.globals.flatMap globalLabels).map fun label =>
    .directive (label ++ ": .word 0")
  [.directive ".data"] ++ strings ++ helpers ++ [.directive ".align 3"] ++ globals

/-- The lines at which a program starts: they call its main procedure and exit. -/
def startLines (program : Program) : List (Line Instr) :=
  [.directive ".text", .instr (.call "main")] ++ (service .exit).map .instr ++
    if usesBoolRoutine program then boolRoutineLines else []

/-- The code of a program, and the placement as far as it came. -/
def emit (program : Program) (placement : Placement) : Placement × Except Fault String :=
  let (placement, lines) := procedures (layOutGlobals .mips placement program) 0 program.procedures
  (placement, lines.map fun lines => renderLines Instr.render
    (dataLines program ++ startLines program ++ lines))

end Shanty.Target.Mips
