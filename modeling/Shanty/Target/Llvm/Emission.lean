/-
# Emitting modules of LLVM

A procedure becomes a function. Everything that it has storage for is reserved at
its entry, in words; strings are kept as numbers and are pointers only where they
are passed to a function or returned from one.

A block begins at each quad that carries a label and after each jump. Since a
procedure ends in the quad at which it is left, each block ends in a jump, in a
return, or right before the next block, to which it jumps then.

A value can only be stored where there is room for its type. Emission breaks off
where this is not so, which does not happen for programs that have been checked.
-/

import Shanty.Code.Program
import Shanty.Target.Llvm.Printer
import Shanty.Target.Storage
import Shanty.Text.Literal

namespace Shanty.Target.Llvm

open Code (Operand Quad Procedure Program Label Slot Temp Variable entryLabel stringLabel)

/-- What is known of a module while the body of a function is being written. The
storage of the procedure comes with the values that point to it. -/
structure Env where
  program : Program
  /-- The contents of the strings. -/
  strings : List IrType
  /-- The functions, under the names of their procedures. -/
  functions : List (String × Function)
  function : Function
  slots : List (Slot × Value) := []
  /-- Where the result of the function is kept. -/
  result? : Option Value := none
  /-- The blocks in which labels lie. -/
  blocks : List (Label × String) := []

/-- The code of a block so far, latest first, with the number of the next result. The
arguments of the next call and the result of the last one outlast a block. -/
structure Builder where
  next : Nat := 0
  steps : List Step := []
  args : List Value := []
  last? : Option Value := none

namespace Builder

/-- Appends an instruction and answers its result. -/
def push (builder : Builder) (instr : Instr) : Value × Builder :=
  let value := .numbered builder.next instr.type
  if instr.hasResult then
    (value, { builder with
      next := builder.next + 1, steps := ⟨some builder.next, instr⟩ :: builder.steps })
  else (value, { builder with steps := ⟨none, instr⟩ :: builder.steps })

/-- Stores a value where there is room for its type. -/
def store (builder : Builder) (value target : Value) : Except Fault Builder :=
  match target.type with
  | .pointer content =>
    if value.type == content then .ok (builder.push (.store value target)).2
    else .error (.crash ("store operands are not compatible: src=" ++ value.type.render ++
      "; dst=" ++ target.type.render))
  | type => .error (.crash ("invalid store destination of type " ++ type.render))

end Builder

/-- The type of an operand's storage. Addresses are words. -/
def storageType : Operand → Except Fault IrType
  | .address _ => .ok IrType.i64
  | operand => return .ofWidth (← operand.width)

/-- The global variable of the module for a global variable of the program. -/
def globalValue (var : Variable) : Value := .global ("var_" ++ var.name) (.ofWidth var.width)

namespace Env

/-- The pointer to the storage of an operand. -/
def pointerTo (env : Env) (operand : Operand) : Except Fault Value :=
  let missing : Except Fault Value := do
    .error (.internal ("operand `" ++ (← operand.render) ++ "` has no storage"))
  match operand with
  | .var var =>
    if env.program.globals.contains var then .ok (globalValue var)
    else (env.slots.lookup var.slot).elim missing .ok
  | .temp temp | .address temp => (env.slots.lookup temp.slot).elim missing .ok
  | _ => missing

/-- The pointer to the storage of an address temporary. -/
def pointerToAddress (env : Env) (temp : Temp) : Except Fault Value :=
  (env.slots.lookup temp.slot).elim (.error .absent) .ok

/-- The block in which a label lies. If there are several, the last one counts. -/
def blockOf (env : Env) (label : Label) : Except Fault String :=
  match env.blocks.reverse.lookup label with
  | some block => .ok block
  | none => .error (.internal ("jump to unknown label `" ++ label.name ++ "`"))

/-- The pointer that an address temporary holds. -/
def heldPointer (env : Env) (builder : Builder) (temp : Temp) :
    Except Fault (Value × Builder) := do
  let (address, builder) := builder.push (.load IrType.i64 (← env.pointerToAddress temp))
  return builder.push (.cast .intToPtr address (.pointer IrType.i64))

/-- The word that an operand has as its value. -/
def load (env : Env) (builder : Builder) (operand : Operand) :
    Except Fault (Value × Builder) :=
  match operand with
  | .constant text =>
    match Text.readInt64? text with
    | some value => .ok (.word value, builder)
    | none => .error (.internal ("bad integer literal `" ++ text ++ "`"))
  | .string index =>
    let content := env.strings.getD index .void
    let (first, builder) :=
      builder.push (.firstChar (.global (stringLabel index) content) content)
    .ok (builder.push (.cast .ptrToInt first IrType.i64))
  | .address temp => do
    let (pointer, builder) ← env.heldPointer builder temp
    return builder.push (.load IrType.i64 pointer)
  | operand => do return builder.push (.load IrType.i64 (← env.pointerTo operand))

/-- Writes a word into the storage of an operand. -/
def store (env : Env) (builder : Builder) (value : Value) (operand : Operand) :
    Except Fault Builder :=
  match operand with
  | .address temp => do
    let (pointer, builder) ← env.heldPointer builder temp
    builder.store value pointer
  | operand => do builder.store value (← env.pointerTo operand)

/-- The address of an operand's storage as a word. -/
def addressOf (env : Env) (builder : Builder) (operand : Operand) :
    Except Fault (Value × Builder) :=
  match operand with
  | .address temp => do
    return builder.push (.load IrType.i64 (← env.pointerToAddress temp))
  | operand => do return builder.push (.cast .ptrToInt (← env.pointerTo operand) IrType.i64)

/-- The pointer to the record of a type that an operand has as its value. -/
def recordPointer (env : Env) (builder : Builder) (operand : Operand) (type : IrType) :
    Except Fault (Value × Builder) :=
  match operand with
  | .address temp => do
    let (address, builder) ← env.addressOf builder (.address temp)
    return builder.push (.cast .intToPtr address (.pointer type))
  | operand => do return (← env.pointerTo operand, builder)

end Env

/-- A word as it is passed to a function that expects a type. -/
def fromWord (builder : Builder) (word : Value) : Ty → Value × Builder
  | .string => builder.push (.cast .intToPtr word IrType.text)
  | _ => (word, builder)

/-- A value that was passed as a word. -/
def toWord (builder : Builder) (value : Value) : Value × Builder :=
  if value.type == IrType.text then builder.push (.cast .ptrToInt value IrType.i64)
  else (value, builder)

/-- Appends the instructions of an operation on two words. -/
def binary (builder : Builder) (op : Code.BinaryOp) (left right : Value) : Value × Builder :=
  match op with
  | .add => builder.push (.arith .add left right)
  | .sub => builder.push (.arith .sub left right)
  | .mult => builder.push (.arith .mul left right)
  | .div => builder.push (.arith .sdiv left right)
  | .and => builder.push (.arith .and left right)
  | .or => builder.push (.arith .or left right)
  | .eq => comparison .eq
  | .neq => comparison .ne
  | .lt => comparison .slt
  | .gt => comparison .sgt
  | .lte => comparison .sle
  | .gte => comparison .sge
where
  /-- Compares two words and makes a word of the answer. -/
  comparison (predicate : Predicate) : Value × Builder :=
    let (bit, builder) := builder.push (.compare predicate left right)
    builder.push (.cast .zext bit IrType.i64)

/-- Appends the instructions of a quad that does not end a block. -/
def instr (env : Env) (builder : Builder) : Code.Instr → Except Fault Builder
  | .binary op target left right => do
    let (first, builder) ← env.load builder left
    let (second, builder) ← env.load builder right
    let (value, builder) := binary builder op first second
    env.store builder value target
  | .unary op target source => do
    let (operand, builder) ← env.load builder source
    let (value, builder) := match op with
      | .neg => builder.push (.arith .sub (.word 0) operand)
      | .not => builder.push (.arith .xor operand (.word 1))
    env.store builder value target
  | .assign target source => do
    let (value, builder) ← env.load builder source
    env.store builder value target
  | .index target base offset => do
    match Text.readInt64? offset with
    | none => .error (.internal ("bad field offset `" ++ offset ++ "`"))
    | some bytes =>
      let (address, builder) ← env.addressOf builder base
      let (sum, builder) := builder.push (.arith .add address (.word bytes))
      builder.store sum (← env.pointerToAddress target)
  | .setArg _ source type => do
    if type.isRecord then
      let (address, builder) ← env.addressOf builder source
      let (pointer, builder) := builder.push (.cast .intToPtr address (.pointer IrType.i64))
      return { builder with args := builder.args ++ [pointer] }
    let (word, builder) ← env.load builder source
    let (value, builder) := fromWord builder word type
    return { builder with args := builder.args ++ [value] }
  | .call callee => do
    match env.functions.lookup callee with
    | none => .error (.internal ("call to unknown procedure `" ++ callee ++ "`"))
    | some function =>
      let (value, builder) := builder.push (.call function.name function.result builder.args)
      return { builder with args := [], last? := some value }
  | .getArg position _ target isRecord => do
    let index := (position - 1).toNat
    match if position < 1 then none else env.function.params[index]? with
    | none => .error (noSuchPosition position)
    | some param =>
      if isRecord then
        let type ← storageType target
        let (pointer, builder) := builder.push (.cast .bitcast param (.pointer type))
        let (value, builder) := builder.push (.load type pointer)
        builder.store value (← env.pointerTo target)
      else
        let (word, builder) := toWord builder param
        env.store builder word target
  | .setRet source isRecord => do
    let type := env.function.result
    let (value, builder) ←
      if isRecord then do
        let (pointer, builder) ← env.recordPointer builder source type
        pure (builder.push (.load type pointer))
      else do
        let (word, builder) ← env.load builder source
        pure (if type == IrType.text then builder.push (.cast .intToPtr word IrType.text)
          else (word, builder))
    match env.result? with
    | some place => builder.store value place
    | none => .error .absent
  | .getRet target isRecord => do
    match builder.last? with
    | none => .error .absent
    | some value =>
      if isRecord then builder.store value (← env.pointerTo target)
      else
        let (word, builder) := toWord builder value
        env.store builder word target
  | .output source type => do
    let (word, builder) ← env.load builder source
    let (value, builder) := fromWord builder word type
    return (builder.push (.call (outputRoutine type) .void [value])).2
  | .input target type => do
    let (value, builder) := builder.push (.call (inputRoutine type) IrType.i64 [])
    env.store builder value target
  | .enter _ | .nop | .goto _ | .ifZero _ _ | .leave _ => .ok builder

/-- Appends the instructions of the last quad of a block and ends the block. -/
def finish (env : Env) (next? : Option String) (builder : Builder) :
    Code.Instr → Except Fault (Terminator × Builder)
  | .goto target => do return (.jump (← env.blockOf target), builder)
  | .ifZero condition target => do
    match next? with
    | none => .error (.internal "conditional jump at the end of a procedure")
    | some next =>
      let (value, builder) ← env.load builder condition
      let (isZero, builder) := builder.push (.compare .eq value (.word 0))
      return (.branch isZero (← env.blockOf target) next, builder)
  | .leave _ =>
    match env.result? with
    | none => .ok (.ret none, builder)
    | some place =>
      let (value, builder) := builder.push (.load env.function.result place)
      .ok (.ret (some value), builder)
  | last => do
    let builder ← instr env builder last
    match next? with
    | some next => return (.jump next, builder)
    | none => .error (.crash "missing terminator in basic block")

/-- Appends the instructions of the quads of a block and ends the block. -/
def quads (env : Env) (next? : Option String) (builder : Builder) :
    List Quad → Except Fault (Terminator × Builder)
  | [] => .error (.crash "missing terminator in basic block")
  | [last] => finish env next? builder last.instr
  | quad :: rest => do quads env next? (← instr env builder quad.instr) rest

/-- The quads of a procedure that make up a block. -/
structure Segment where
  name : String
  labels : List Label
  quads : List Quad

/-- The name of a block that begins at a quad, given the place of the quad in its
procedure. -/
def blockName (quad : Quad) (index : Nat) : String :=
  match quad.labels with
  | label :: _ => label.name
  | [] => "blk_" ++ toString index

/-- Splits quads into those that go on a block and the blocks after it. A block begins
at a label and after a jump. -/
def split (index : Nat) (afterJump : Bool) : List Quad → List Quad × List Segment
  | [] => ([], [])
  | quad :: rest =>
    let (going, segments) := split (index + 1) quad.instr.jumpTarget?.isSome rest
    if !quad.labels.isEmpty || afterJump then
      ([], ⟨blockName quad index, quad.labels, quad :: going⟩ :: segments)
    else (quad :: going, segments)

/-- The blocks of a procedure. The first one begins where it is entered. -/
def segments (procedure : Procedure) : List Segment :=
  let (going, segments) := split 1 false (procedure.body ++ [procedure.leaveQuad])
  ⟨"entry", [], procedure.enterQuad :: going⟩ :: segments

/-- The blocks of some segments, each with its code. -/
def blocks (env : Env) (builder : Builder) :
    List Segment → Except Fault (List Block × Builder)
  | [] => .ok ([], builder)
  | segment :: rest => do
    let next? := rest.head?.map (·.name)
    let (terminator, builder) ← quads env next? builder segment.quads
    let (more, after) ← blocks env { builder with steps := [] } rest
    return (⟨segment.name, builder.steps.reverse, terminator⟩ :: more, after)

/-- Reserves the storage of operands and answers the values that point to it. -/
def reserve (builder : Builder) : List (Slot × IrType) → List (Slot × Value) × Builder
  | [] => ([], builder)
  | (slot, type) :: rest =>
    let (pointer, builder) := builder.push (.alloca type)
    let (more, builder) := reserve builder rest
    ((slot, pointer) :: more, builder)

/-- The storage of a procedure with its types, in the order of its frame. -/
def storage (procedure : Procedure) : List (Slot × IrType) :=
  (procedure.formals ++ procedure.locals).map (fun var => (var.slot, .ofWidth var.width)) ++
    procedure.temps.map (fun temp => (temp.slot, .ofWidth temp.width)) ++
    procedure.addresses.map (fun temp => (temp.slot, IrType.i64))

/-- The blocks in which the labels of a procedure lie. -/
def labelBlocks (segments : List Segment) : List (Label × String) :=
  segments.flatMap fun segment => segment.labels.map fun label => (label, segment.name)

/-- The number of the first result that a function does not have yet. Parameters
without a name are numbered, too. -/
def Function.nextNumber (function : Function) : Nat :=
  function.params.countP (fun | .numbered _ _ => true | _ => false) +
    function.blocks.foldr (fun block count => block.steps.countP (·.number.isSome) + count) 0

/-- The function with the blocks of a procedure. -/
def body (env : Env) (builder : Builder) (procedure : Procedure) :
    Except Fault (Function × Builder) := do
  let function := env.function
  let segments := segments procedure
  let (slots, builder) :=
    reserve { builder with next := function.nextNumber, steps := [] } (storage procedure)
  let (result?, builder) :=
    if function.result == .void then (none, builder)
    else
      let (place, builder) := builder.push (.alloca function.result)
      (some place, builder)
  let env := { env with slots, result?, blocks := labelBlocks segments }
  let (blocks, builder) ← blocks env builder segments
  return ({ function with blocks := function.blocks ++ blocks }, builder)

/-- The parameters of a function, given how many without a name came before. -/
def params (unnamed : Nat) : List IrType → List Variable → Except Fault (List Value)
  | [], _ => .ok []
  | _ :: _, [] => .error (.crash "more types than parameters")
  | type :: types, formal :: formals => do
    if formal.name = "" then
      return .numbered unnamed type :: (← params (unnamed + 1) types formals)
    return .param formal.name type :: (← params unnamed types formals)

/-- The function of a procedure without its blocks. -/
def signature (procedure : Procedure) : Except Fault Function := do
  return {
    name := entryLabel procedure.name
    result := .ofTy procedure.result
    params := ← params 0 (IrType.ofParams procedure.params) procedure.formals }

/-- The routines that emitted programs rely on. -/
def runtime : List Function :=
  [⟨"printInt", .void, [.param "n" IrType.i64], []⟩,
    ⟨"printBool", .void, [.param "b" IrType.i64], []⟩,
    ⟨"printString", .void, [.param "s" IrType.text], []⟩,
    ⟨"getInt", IrType.i64, [], []⟩,
    ⟨"getBool", IrType.i64, [], []⟩]

/-- What a string of the program becomes: its bytes and a zero. -/
def stringContent (text : String) : Except Fault Initial :=
  match Text.Literal.decode? text with
  | some bytes => .ok (.text (bytes ++ [0]))
  | none => .error (.internal ("malformed string literal " ++ text))

/-- Replaces the last function under a name. -/
def replaceLast (name : String) (function : Function) :
    List (String × Function) → List (String × Function)
  | [] => []
  | entry :: rest =>
    if entry.1 = name && !rest.any (·.1 = name) then (name, function) :: rest
    else entry :: replaceLast name function rest

/-- The functions with the bodies of procedures. Of several procedures with one name,
the last one gives the function its parameters, and all give it their blocks. -/
def bodies (program : Program) (strings : List IrType) (functions : List (String × Function))
    (builder : Builder) : List Procedure → Except Fault (List (String × Function))
  | [] => .ok functions
  | procedure :: rest => do
    match functions.reverse.lookup procedure.name with
    | none => .error .absent
    | some function =>
      let env : Env := { program, strings, functions := functions.reverse, function }
      let (function, builder) ← body env builder procedure
      bodies program strings (replaceLast procedure.name function functions) builder rest

/-- The module of a program. -/
def Module.ofProgram (program : Program) : Except Fault Module := do
  let strings ← program.strings.mapM stringContent
  let signatures ← program.procedures.mapM fun procedure =>
    return (procedure.name, ← signature procedure)
  let functions ← bodies program (strings.map (·.type)) signatures {} program.procedures
  return {
    globals := strings.mapIdx (fun index content => (stringLabel index, content)) ++
      program.globals.map fun var => ("var_" ++ var.name, .zero (.ofWidth var.width))
    functions := runtime ++ functions.map (·.2) }

/-- The text of the module of a program. -/
def emit (program : Program) : Except Fault String := return (← Module.ofProgram program).render

end Shanty.Target.Llvm
