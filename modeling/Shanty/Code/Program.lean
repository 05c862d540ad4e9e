/-
# Programs of the intermediate code

A procedure has parameters, local variables, temporaries and a body. It is entered
at its first quad and left at its last one, to which all returns jump. These two
quads are not part of the body; what can vary about them is the list of labels that
the last one carries.

A program has global variables, strings and procedures. It hands out numbered
labels and keeps each string once.
-/

import Shanty.Code.Quad

namespace Shanty.Code

/-- A procedure. Its index is its place in the program. The types of its
parameters and its result are those of the function that it stems from. -/
structure Procedure where
  index : Nat
  name : String
  params : List Ty
  result : Ty
  /-- The label that returns jump to. -/
  exit : Label
  /-- The labels that the last quad carries. -/
  exitLabels : List Label
  body : List Quad := []
  formals : List Variable := []
  locals : List Variable := []
  temps : List Temp := []
  addresses : List Temp := []
  nextTemp : Nat := 0

/-- A whole program. -/
structure Program where
  globals : List Variable := []
  /-- The strings as they are written in the source, with their quotes. -/
  strings : List String := []
  procedures : List Procedure := []
  nextLabel : Nat := 0

/-- The least multiple of an alignment that is not less than a size. Negative sizes
are rounded towards zero. -/
def alignUp (size alignment : Int64) : Int64 := (size + alignment - 1) / alignment * alignment

namespace Procedure

/-- The quad at which a procedure is entered. -/
def enterQuad (procedure : Procedure) : Quad :=
  { labels := [.entry procedure.name], instr := .enter procedure.name }

/-- The quad at which a procedure is left. -/
def leaveQuad (procedure : Procedure) : Quad :=
  { labels := procedure.exitLabels, instr := .leave procedure.name }

/-- All quads in the order of execution. -/
def quads (procedure : Procedure) : List Quad :=
  procedure.enterQuad :: (procedure.body ++ [procedure.leaveQuad])

/-- Everything that a procedure has storage for, in the order of its frame. -/
def operands (procedure : Procedure) : List Operand :=
  procedure.formals.map .var ++ procedure.locals.map .var ++
    procedure.temps.map .temp ++ procedure.addresses.map .address

/-- The widths of a procedure's operands, in the order of its frame. -/
def widths (procedure : Procedure) : List Int64 :=
  procedure.formals.map (·.width) ++ procedure.locals.map (·.width) ++
    procedure.temps.map (·.width) ++ procedure.addresses.map (·.width)

/-- The size of the storage that a procedure needs, as a multiple of sixteen. -/
def frameSize (procedure : Procedure) : Int64 := alignUp (procedure.widths.foldr (· + ·) 0) 16

/-- The procedure with quads added at the end of its body. -/
def append (procedure : Procedure) (quads : List Quad) : Procedure :=
  { procedure with body := procedure.body ++ quads }

/-- The procedure with one more formal parameter. -/
def addFormal (procedure : Procedure) (formal : Variable) : Procedure :=
  { procedure with formals := procedure.formals ++ [formal] }

/-- The procedure with one more local variable. -/
def addLocal (procedure : Procedure) (var : Variable) : Procedure :=
  { procedure with locals := procedure.locals ++ [var] }

/-- A new temporary for a value. -/
def newTemp (procedure : Procedure) (width : Int64) : Temp × Procedure :=
  let temp : Temp := ⟨procedure.index, procedure.nextTemp, width⟩
  (temp, { procedure with
    temps := procedure.temps ++ [temp], nextTemp := procedure.nextTemp + 1 })

/-- A new temporary for an address. -/
def newAddress (procedure : Procedure) (width : Int64) : Temp × Procedure :=
  let temp : Temp := ⟨procedure.index, procedure.nextTemp, width⟩
  (temp, { procedure with
    addresses := procedure.addresses ++ [temp], nextTemp := procedure.nextTemp + 1 })

/-- The lines of a listing about the storage of a procedure. -/
def renderStorage (procedure : Procedure) : List String :=
  let line (what name : String) (width : Int64) :=
    name ++ " (" ++ what ++ " of " ++ toString width ++ " bytes)"
  procedure.formals.map (fun formal => line "formal arg" formal.name formal.width) ++
    procedure.locals.map (fun var => line "local var" var.name var.width) ++
    procedure.temps.map (fun temp => line "tmp var" (Operand.tempName temp) temp.width) ++
    procedure.addresses.map (fun temp => line "tmp loc" (Operand.renderAddress temp) temp.width)

/-- The procedure as part of a listing, line by line. -/
def render (procedure : Procedure) (verbose : Bool) : Except Fault (List String) := do
  let quads ← procedure.quads.mapM (·.render verbose)
  return ["[BEGIN " ++ procedure.name ++ " LOCALS]"] ++ procedure.renderStorage ++
    ["[END " ++ procedure.name ++ " LOCALS]"] ++ quads

end Procedure

/-- A text made of lines, each of which is ended. -/
def unlines (lines : List String) : String := String.join (lines.map (· ++ "\n"))

namespace Program

/-- The variable of a symbol as a procedure sees it: one of its parameters, one of
its local variables, or a global variable. -/
def visible? (program : Program) (procedure : Procedure) (symbol : Nat) : Option Variable :=
  let has (var : Variable) := var.symbol = symbol
  (procedure.formals.find? has).or ((procedure.locals.find? has).or (program.globals.find? has))

/-- Whether an operand is a global variable of the program. -/
def isGlobal (program : Program) : Operand → Bool
  | .var var => program.globals.contains var
  | _ => false

/-- A new label. -/
def newLabel (program : Program) : Label × Program :=
  (.numbered program.nextLabel, { program with nextLabel := program.nextLabel + 1 })

/-- The index of a string in the program, to which it is added if it is new. -/
def intern (program : Program) (text : String) : Nat × Program :=
  (program.strings.idxOf text,
    if program.strings.contains text then program
    else { program with strings := program.strings ++ [text] })

/-- The program with one more global variable. -/
def addGlobal (program : Program) (var : Variable) : Program :=
  { program with globals := program.globals ++ [var] }

/-- A new procedure with an empty body, which is not yet part of the program, and
the program after handing out the label that its returns jump to. -/
def newProcedure (program : Program) (name : String) (params : List Ty) (result : Ty) :
    Procedure × Program :=
  let (exit, program) := program.newLabel
  ({ index := program.procedures.length, name, params, result, exit, exitLabels := [exit] },
    program)

/-- The program with one more procedure. -/
def addProcedure (program : Program) (procedure : Procedure) : Program :=
  { program with procedures := program.procedures ++ [procedure] }

/-- The program as a listing. -/
def render (program : Program) (verbose : Bool) : Except Fault String := do
  let strings := program.strings.mapIdx fun index text => stringLabel index ++ " " ++ text
  let procedures ← program.procedures.mapM (·.render verbose)
  return unlines (["[BEGIN GLOBALS]"] ++ program.globals.map (·.name) ++ strings ++
    ["[END GLOBALS]"] ++ procedures.flatten)

/-- The number of quads in the bodies of all procedures. -/
def bodySize (program : Program) : Nat :=
  program.procedures.foldr (fun procedure size => procedure.body.length + size) 0

end Program

end Shanty.Code
