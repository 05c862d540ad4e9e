/-
# From programs to intermediate code

A checked program becomes intermediate code declaration by declaration. The code of
an expression computes its parts from left to right, each into a temporary of its
own, and is followed by the code of the statement around it; the source of an
assignment comes before its destination. Both sides of `&&` and `||` are computed.

Lowering an expression yields the operand that has its value, the code that has to
run before, and the draft of the program so far. The code itself is not part of the
draft, so the code of a whole is put together from the code of its parts by `++`.

A checked program has no faults to offer. Those raised here say what the checker
would have had to find.
-/

import Shanty.Code.Program
import Shanty.Tree

namespace Shanty.Code

open Shanty.Tree (Expr Stmt Ident Node VarDecl FnDecl Decl)

/-- What is known while a procedure is being written: the program with all that
comes before it, and the procedure without its body. -/
structure Draft where
  program : Program
  procedure : Procedure

namespace Draft

/-- A new label. -/
def newLabel (draft : Draft) : Label × Draft :=
  let (label, program) := draft.program.newLabel
  (label, { draft with program })

/-- The operand of a string. -/
def string (draft : Draft) (text : String) : Operand × Draft :=
  let (index, program) := draft.program.intern text
  (.string index, { draft with program })

/-- A new temporary for a value. -/
def newTemp (draft : Draft) (width : Int64) : Temp × Draft :=
  let (temp, procedure) := draft.procedure.newTemp width
  (temp, { draft with procedure })

/-- A new temporary for the address of a field. -/
def newAddress (draft : Draft) : Temp × Draft :=
  let (temp, procedure) := draft.procedure.newAddress slotWidth
  (temp, { draft with procedure })

/-- The variable that a name stands for. -/
def visible? (draft : Draft) (ident : Ident) : Option Variable :=
  ident.symbol.bind fun symbol => draft.program.visible? draft.procedure symbol.number

end Draft

/-- The operation that an operator stands for. -/
def BinaryOp.ofTree : Tree.BinaryOp → BinaryOp
  | .plus => .add
  | .minus => .sub
  | .times => .mult
  | .divide => .div
  | .and => .and
  | .or => .or
  | .equal => .eq
  | .notEqual => .neq
  | .less => .lt
  | .lessEqual => .lte
  | .greater => .gt
  | .greaterEqual => .gte

/-- The operation that an operator stands for. -/
def UnaryOp.ofTree : Tree.UnaryOp → UnaryOp
  | .negate => .neg
  | .not => .not

namespace Lowering

/-- A fault that a checked program does not give rise to. -/
def broken {α : Type} (text : String) : Except Fault α := .error (.internal text)

/-- The meaning that the checker gave to a node. -/
def meaningOf (node : Node) : Except Fault Meaning :=
  match node.meaning with
  | some meaning => .ok meaning
  | none => broken ("no type for node " ++ toString node.number)

/-- The type of an expression as its code sees it. An expression without a value does
not get as far as to have code. -/
def typeOf (expr : Expr) : Except Fault Ty := do
  match ← meaningOf expr.node with
  | .value type => return type
  | .recordName => return .error

/-- The width of the value of a node. -/
def widthOf (node : Node) : Except Fault Int64 := do
  match ← meaningOf node with
  | .value type => return type.size
  | .recordName => broken "record name used as a value in lowering"

/-- The symbol of a declaration or a function. -/
def symbolOf (ident : Ident) : Except Fault Symbol :=
  match ident.symbol with
  | some symbol => .ok symbol
  | none => .error .absent

/-- The parameters and the result of the function that a symbol stands for. -/
def signature? (symbol : Symbol) : Option (List Ty × Ty) :=
  match symbol.type with
  | .fn params result => some (params, result)
  | _ => none

/-- The offset of a field in the value of an expression. -/
def offsetOf (base : Expr) (selector : Ident) : Except Fault Int64 := do
  match ← typeOf base with
  | .record name _ fields =>
    match Ty.field? fields selector.name with
    | some field => return field.offset
    | none => broken ("record `" ++ name ++ "` has no field `" ++ selector.name ++ "`")
  | _ => broken "index base is not a record in lowering"

/-- The quads that pass arguments, from a position on. -/
def passArgs (position : Nat) : List (Expr × Operand) → Except Fault (List Quad)
  | [] => .ok []
  | (arg, operand) :: rest => do
    let type ← typeOf arg
    return .plain (.setArg position operand type) :: (← passArgs (position + 1) rest)

/-- The result of a call. -/
structure CallResult where
  temp : Temp
  isRecord : Bool

/-- The quads of a call after its arguments have been computed, up to the call
itself, and the temporary for the result, if the function has one. -/
def call (callee : Ident) (args : List (Expr × Operand)) (draft : Draft) :
    Except Fault (Option CallResult × List Quad × Draft) := do
  let passing ← passArgs 1 args
  let symbol ← symbolOf callee
  let code := passing ++ [.plain (.call symbol.name)]
  match signature? symbol with
  | none => broken ("call to non-function `" ++ callee.name ++ "` in lowering")
  | some (_, .void) => return (none, code, draft)
  | some (_, result) =>
    let (temp, draft) := draft.newTemp result.size
    return (some ⟨temp, result.isRecord⟩, code, draft)

/-- The quad that fetches the result of a call, if there is one. -/
def fetch : Option CallResult → List Quad
  | none => []
  | some result => [.plain (.getRet (.temp result.temp) result.isRecord)]

/-- The operand of the result of a call. -/
def CallResult.operand : Option CallResult → Operand
  | none => .nothing
  | some result => .temp result.temp

/-- The width of the result of an operation. Comparisons answer a truth value
whatever they compare. -/
def resultWidth (op : BinaryOp) (node : Node) : Except Fault Int64 :=
  if op.isComparison then .ok slotWidth else widthOf node

mutual

/-- The operand with the value of an expression and the code that computes it. -/
def expr (draft : Draft) : Expr → Except Fault (Operand × List Quad × Draft)
  | .int _ value => .ok (.constant (toString value), [], draft)
  | .string _ text =>
    let (operand, draft) := draft.string text
    .ok (operand, [], draft)
  | .bool _ value => .ok (.ofBool value, [], draft)
  | .name ident =>
    match draft.visible? ident with
    | some var => .ok (.var var, [], draft)
    | none => broken ("no operand for identifier `" ++ ident.name ++ "`")
  | .field _ base selector => do
    let (place, code, draft) ← expr draft base
    let offset ← offsetOf base selector
    let (temp, draft) := draft.newAddress
    return (.address temp, code ++ [.plain (.index temp place (toString offset))], draft)
  | .assign _ target source => do
    let (value, sourceCode, draft) ← expr draft source
    let (place, targetCode, draft) ← expr draft target
    return (place, sourceCode ++ targetCode ++
      [{ instr := .assign place value, comment := "Assign" }], draft)
  | .call _ callee args => do
    let (operands, argCode, draft) ← exprs draft args
    let (result, code, draft) ← call callee (args.zip operands) draft
    return (CallResult.operand result, argCode ++ code ++ fetch result, draft)
  | .unary node op operand => do
    let (source, code, draft) ← expr draft operand
    if source = .nothing then broken "unary operator applied to a void value in lowering"
    let (temp, draft) := draft.newTemp (← widthOf node)
    return (.temp temp, code ++ [.plain (.unary (.ofTree op) (.temp temp) source)], draft)
  | .binary node op left right => do
    let (first, firstCode, draft) ← expr draft left
    let (second, secondCode, draft) ← expr draft right
    if first = .nothing || second = .nothing then
      broken "binary operator applied to a void value in lowering"
    let (temp, draft) := draft.newTemp (← resultWidth (.ofTree op) node)
    return (.temp temp, firstCode ++ secondCode ++
      [.plain (.binary (.ofTree op) (.temp temp) first second)], draft)

/-- The operands with the values of expressions and the code that computes them one
after the other. -/
def exprs (draft : Draft) : List Expr → Except Fault (List Operand × List Quad × Draft)
  | [] => .ok ([], [], draft)
  | first :: rest => do
    let (operand, code, draft) ← expr draft first
    let (operands, moreCode, draft) ← exprs draft rest
    return (operand :: operands, code ++ moreCode, draft)

end

/-- The code that adds one to a place or takes one from it. -/
def step (op : BinaryOp) (draft : Draft) (place : Expr) :
    Except Fault (List Quad × Draft) := do
  let (operand, code, draft) ← expr draft place
  return (code ++ [.plain (.binary op operand operand (.constant "1"))], draft)

mutual

/-- The code of a statement. -/
def stmt (draft : Draft) : Stmt → Except Fault (List Quad × Draft)
  | .declare decl => do
    let symbol ← symbolOf decl.ident
    return ([], { draft with procedure := draft.procedure.addLocal (.ofSymbol symbol) })
  | .assign _ inner target source => do
    let (_, code, draft) ← expr draft (.assign inner target source)
    return (code, draft)
  | .increment _ place => step .add draft place
  | .decrement _ place => step .sub draft place
  | .receive _ place => do
    let (operand, code, draft) ← expr draft place
    return (code ++ [.plain (.input operand (← typeOf place))], draft)
  | .report _ source => do
    let (operand, code, draft) ← expr draft source
    return (code ++ [.plain (.output operand (← typeOf source))], draft)
  | .return _ none => .ok ([.plain (.goto draft.procedure.exit)], draft)
  | .return _ (some value) => do
    let (operand, code, draft) ← expr draft value
    let type ← typeOf value
    return (code ++ [.plain (.setRet operand type.isRecord),
      .plain (.goto draft.procedure.exit)], draft)
  | .call _ _ callee args => do
    let (operands, argCode, draft) ← exprs draft args
    let (_, code, draft) ← call callee (args.zip operands) draft
    return (argCode ++ code, draft)
  | .if _ condition body => do
    let (operand, code, draft) ← expr draft condition
    let (after, draft) := draft.newLabel
    let (bodyCode, draft) ← block draft body
    return (code ++ [.plain (.ifZero operand after)] ++ bodyCode ++ [.landing after], draft)
  | .ifElse _ condition body otherwise => do
    let (alternative, draft) := draft.newLabel
    let (after, draft) := draft.newLabel
    let (operand, code, draft) ← expr draft condition
    let (bodyCode, draft) ← block draft body
    let (otherwiseCode, draft) ← block draft otherwise
    return (code ++ [.plain (.ifZero operand alternative)] ++ bodyCode ++
      [.plain (.goto after), .landing alternative] ++ otherwiseCode ++ [.landing after], draft)
  | .while _ condition body => do
    let (head, draft) := draft.newLabel
    let (after, draft) := draft.newLabel
    let (operand, code, draft) ← expr draft condition
    let (bodyCode, draft) ← block draft body
    return ([.landing head] ++ code ++ [.plain (.ifZero operand after)] ++ bodyCode ++
      [.plain (.goto head), .landing after], draft)

/-- The code of a list of statements. -/
def block (draft : Draft) : List Stmt → Except Fault (List Quad × Draft)
  | [] => .ok ([], draft)
  | first :: rest => do
    let (code, draft) ← stmt draft first
    let (moreCode, draft) ← block draft rest
    return (code ++ moreCode, draft)

end

/-- The quads that receive the arguments of a procedure with a number of formal
parameters, from a position on. -/
def receiveArgs (count : Nat) (position : Nat) : List Symbol → List Quad
  | [] => []
  | symbol :: rest =>
    .plain (.getArg position count (.var (.ofSymbol symbol)) symbol.type.isRecord) ::
      receiveArgs count (position + 1) rest

/-- The program with the procedure of a function. -/
def function (program : Program) (decl : FnDecl) : Except Fault Program := do
  let symbol ← symbolOf decl.ident
  match signature? symbol with
  | none => broken ("function `" ++ decl.ident.name ++ "` has no function type")
  | some (params, result) =>
    let (procedure, program) := program.newProcedure decl.ident.name params result
    let formals ← decl.formals.mapM fun formal => symbolOf formal.ident
    let procedure := { procedure with formals := formals.map .ofSymbol }
    let (code, draft) ← block ⟨program, procedure⟩ decl.body
    return draft.program.addProcedure
      (draft.procedure.append (receiveArgs formals.length 1 formals ++ code))

/-- The program with all that a declaration contributes. A record contributes
nothing. -/
def declaration (program : Program) : Decl → Except Fault Program
  | .var decl => do return program.addGlobal (.ofSymbol (← symbolOf decl.ident))
  | .record _ => .ok program
  | .fn decl => function program decl

end Lowering

/-- The intermediate code of a checked program. -/
def lower (program : Tree.Program) : Except Fault Program :=
  program.decls.foldlM Lowering.declaration {}

end Shanty.Code
