/-
# A workbench for intermediate code

Code need not stem from a program: on a workbench it is put together piece by piece,
transformed, emitted and looked at in between. Quads are known by their tags there,
which are their numbers in the order of their creation. A quad that is taken out of
its procedure stays on the workbench, apart from all procedures, and can still be
looked at and given labels.
-/

import Shanty.Code.Peephole
import Shanty.Target

namespace Shanty

open Code (Variable Temp Label Quad Procedure Program Operand)

/-- A program under construction, where its storage lies, and the quads that are in no
procedure. -/
structure Workbench where
  program : Program := {}
  placement : Target.Placement := .empty
  detached : List Quad := []
  quadCount : Nat := 0
  symbolCount : Nat := 0

namespace Workbench

/-- The procedure at a place. -/
def procedure? (bench : Workbench) (index : Nat) : Option Procedure :=
  bench.program.procedures[index]?

/-- Puts a procedure in its place. -/
def setProcedure (bench : Workbench) (procedure : Procedure) : Workbench :=
  { bench with program := { bench.program with
      procedures := bench.program.procedures.set procedure.index procedure } }

/-- Adds a procedure. -/
def addProcedure (bench : Workbench) (name : String) (params : List Ty) (result : Ty) :
    Procedure × Workbench :=
  let (procedure, program) := bench.program.newProcedure name params result
  (procedure, { bench with program := program.addProcedure procedure })

/-- A new variable, which is not yet part of anything. -/
def newVariable (bench : Workbench) (name : String) (type : Ty) : Variable × Workbench :=
  (⟨bench.symbolCount, name, type.size⟩, { bench with symbolCount := bench.symbolCount + 1 })

/-- Adds a global variable. -/
def addGlobal (bench : Workbench) (name : String) (type : Ty) : Operand × Workbench :=
  let (var, bench) := bench.newVariable name type
  (.var var, { bench with program := bench.program.addGlobal var })

/-- Adds a formal parameter to a procedure. -/
def addFormal (bench : Workbench) (procedure : Procedure) (name : String) (type : Ty) :
    Operand × Workbench :=
  let (var, bench) := bench.newVariable name type
  (.var var, bench.setProcedure (procedure.addFormal var))

/-- Adds a local variable to a procedure. -/
def addLocal (bench : Workbench) (procedure : Procedure) (name : String) (type : Ty) :
    Operand × Workbench :=
  let (var, bench) := bench.newVariable name type
  (.var var, bench.setProcedure (procedure.addLocal var))

/-- Adds a temporary for a value to a procedure. -/
def addTemp (bench : Workbench) (procedure : Procedure) (width : Int64) : Operand × Workbench :=
  let (temp, procedure) := procedure.newTemp width
  (.temp temp, bench.setProcedure procedure)

/-- Adds a temporary for an address to a procedure. -/
def addAddress (bench : Workbench) (procedure : Procedure) (width : Int64) :
    Operand × Workbench :=
  let (temp, procedure) := procedure.newAddress width
  (.address temp, bench.setProcedure procedure)

/-- Adds a string to the program, unless it is there. -/
def addString (bench : Workbench) (text : String) : Operand × Workbench :=
  let (index, program) := bench.program.intern text
  (.string index, { bench with program })

/-- A new label. -/
def newLabel (bench : Workbench) : Label × Workbench :=
  let (label, program) := bench.program.newLabel
  (label, { bench with program })

/-- Appends a quad to a procedure and answers it with its tag. -/
def append (bench : Workbench) (procedure : Procedure) (quad : Quad) : Quad × Workbench :=
  let quad := { quad with tag := bench.quadCount }
  let bench := bench.setProcedure (procedure.append [quad])
  (quad, { bench with quadCount := bench.quadCount + 1 })

/-- All quads on the workbench that have a tag. -/
def quads (bench : Workbench) : List Quad :=
  bench.detached ++ bench.program.procedures.flatMap (·.body)

/-- The quad with a tag. -/
def quad? (bench : Workbench) (tag : Nat) : Option Quad :=
  bench.quads.find? (·.tag = tag)

/-- Replaces the quad that has the tag of the given one. -/
def setQuad (bench : Workbench) (quad : Quad) : Workbench :=
  let replace (other : Quad) : Quad := if other.tag = quad.tag then quad else other
  { bench with
    detached := bench.detached.map replace
    program := { bench.program with
      procedures := bench.program.procedures.map fun procedure =>
        { procedure with body := procedure.body.map replace } } }

/-- Adds a label to a quad. -/
def addLabel (bench : Workbench) (quad : Quad) (label : Label) : Quad × Workbench :=
  let quad := quad.addLabels [label]
  (quad, bench.setQuad quad)

/-- Moves the labels of one quad to another. A quad that moves its labels to itself
loses them. -/
def transfer (bench : Workbench) (source target : Quad) : Workbench :=
  let bench := bench.setQuad (target.addLabels source.labels)
  bench.setQuad { source with labels := [] }

/-- Takes the last quad out of the body of a procedure. -/
def pop (bench : Workbench) (procedure : Procedure) : Except Fault (Quad × Workbench) :=
  match procedure.body.getLast? with
  | none => .error (.internal ("pop from empty procedure `" ++ procedure.name ++ "`"))
  | some quad =>
    let bench := bench.setProcedure { procedure with body := procedure.body.dropLast }
    .ok (quad, { bench with detached := quad :: bench.detached })

/-- Removes the quads without effect and answers how many there were. They have no
labels from then on. -/
def optimize (bench : Workbench) : Nat × Workbench :=
  let program := bench.program.optimize
  let kept := program.procedures.flatMap fun procedure => procedure.body.map (·.tag)
  let removed := (bench.program.procedures.flatMap (·.body)).filter fun quad =>
    !kept.contains quad.tag
  (removed.length,
    { bench with program, detached := removed.map ({ · with labels := [] }) ++ bench.detached })

/-- Emits the program. -/
def emit (bench : Workbench) (target : Target) : Workbench × Except Fault String :=
  let (placement, text) := target.emit bench.program bench.placement
  ({ bench with placement }, text)

/-- Where an operand lies, as it is written. -/
def location (bench : Workbench) (operand : Operand) : Except Fault String :=
  (bench.placement.locate operand).map (·.render)

/-- Chooses where an operand lies. A constant lies nowhere. -/
def setLocation (bench : Workbench) (operand : Operand) (text : String) :
    Except Fault Workbench :=
  let refuse (constant : String) : Except Fault Workbench :=
    .error (.internal ("tried to set the location of constant `" ++ constant ++ "`"))
  match operand with
  | .constant constant => refuse constant
  | .string index => refuse (Code.stringLabel index)
  | operand => do
    let slot ← operand.slot
    return { bench with placement := bench.placement.set slot (.chosen text) }

end Workbench

end Shanty
