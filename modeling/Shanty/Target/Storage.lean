/-
# Where the storage of a program lies

Assembly code refers to the storage of an operand by its location: a distance below
the frame pointer for what belongs to a procedure, a label for a global variable.
Emitting assembly code gives a location to everything as it goes along, and a later
emission starts from where the earlier one left off, also if that broke off midway.

The pieces of a frame lie one below the other without gaps, in the order in which
the procedure lists them.
-/

import Shanty.Code.Program

namespace Shanty.Target

open Code (Slot Procedure Program Operand Variable)

/-- The machines whose code refers to storage by location. -/
inductive Machine
  | x64
  | mips
  deriving DecidableEq

/-- A location. -/
inductive Location
  /-- None has been given yet. -/
  | unset
  /-- A number of bytes below the frame pointer. -/
  | frame (machine : Machine) (distance : Int64)
  /-- The place with a label in the data of the program. -/
  | data (machine : Machine) (label : String)
  /-- A location chosen by a caller, as it is written. -/
  | chosen (text : String)
  deriving DecidableEq

/-- The location as it is written in assembly code. -/
def Location.render : Location → String
  | .unset => ""
  | .frame .x64 distance => "-" ++ toString distance ++ "(%rbp)"
  | .frame .mips distance => "-" ++ toString distance ++ "($fp)"
  | .data .x64 label => label ++ "(%rip)"
  | .data .mips label => label
  | .chosen text => text

/-- The locations of all storage. -/
structure Placement where
  location : Slot → Location

namespace Placement

instance : CoeFun Placement fun _ => Slot → Location := ⟨Placement.location⟩

/-- The placement in which nothing has a location. -/
def empty : Placement := ⟨fun _ => .unset⟩

/-- The placement in which one piece of storage has a new location. -/
def set (placement : Placement) (slot : Slot) (location : Location) : Placement :=
  ⟨fun other => if other = slot then location else placement other⟩

/-- The placement in which each piece of storage of a list has a new location. No piece
is listed twice. -/
def setAll (placement : Placement) (places : List (Slot × Location)) : Placement :=
  ⟨fun slot => (places.lookup slot).getD (placement slot)⟩

/-- The location of an operand. A constant has none. -/
def locate (placement : Placement) (operand : Operand) : Except Fault Location :=
  operand.slot.map placement.location

end Placement

/-- The storage of a procedure, in the order of its frame. -/
def slots (procedure : Procedure) : List Slot :=
  procedure.formals.map (·.slot) ++ procedure.locals.map (·.slot) ++
    procedure.temps.map (·.slot) ++ procedure.addresses.map (·.slot)

/-- The distances below the frame pointer at which pieces of the given widths lie, if
the first one starts at the given distance. -/
def distances (start : Int64) : List Int64 → List Int64
  | [] => []
  | width :: rest => (start + width) :: distances (start + width) rest

/-- The placement after laying out the frame of a procedure on a machine, given where
the frame starts and how wide its pieces are there. -/
def layOut (machine : Machine) (start : Int64) (widths : List Int64) (placement : Placement)
    (procedure : Procedure) : Placement :=
  placement.setAll ((slots procedure).zip
    ((distances start widths).map (.frame machine)))

/-- The label of a slot of a global variable. The only slot of a variable as wide as a
slot has no number. -/
def globalLabel (var : Variable) (index : Nat) : String :=
  if var.width = Code.slotWidth then "var_" ++ var.name
  else "var_" ++ var.name ++ "_f" ++ toString index

/-- The labels of all slots of a global variable. -/
def globalLabels (var : Variable) : List String :=
  (List.range (var.width / Code.slotWidth).toInt.toNat).map (globalLabel var)

/-- The placement after each global variable has the location of its first slot. -/
def layOutGlobals (machine : Machine) (placement : Placement) (program : Program) : Placement :=
  placement.setAll (program.globals.map fun var => (var.slot, .data machine (globalLabel var 0)))

/-- A line of assembly code. -/
inductive Line (Instr : Type)
  | directive (text : String)
  | label (name : String)
  | instr (instr : Instr)

/-- Assembly code as a text, given how its instructions are written. -/
def renderLines {Instr : Type} (render : Instr → String) (lines : List (Line Instr)) : String :=
  String.join (lines.map fun
    | .directive text => text ++ "\n"
    | .label name => name ++ ":\n"
    | .instr instr => "\t" ++ render instr ++ "\n")

/-- The lines for the labels of a quad. -/
def labelLines {Instr : Type} (quad : Code.Quad) : List (Line Instr) :=
  quad.labels.map fun label => .label label.name

/-- The runtime routine that writes a value of a type. -/
def outputRoutine : Ty → String
  | .bool => "printBool"
  | .string => "printString"
  | _ => "printInt"

/-- The runtime routine that reads a value of a type. -/
def inputRoutine : Ty → String
  | .bool => "getBool"
  | _ => "getInt"

/-- The fault of an argument position that does not exist. -/
def noSuchPosition (position : Int) : Fault :=
  .crash ("no argument position " ++ toString position)

end Shanty.Target
