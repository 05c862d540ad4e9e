/-
# Targets

The targets that a program can be emitted for. Emission for a machine changes where
the storage of the program lies; emission for LLVM leaves it alone.
-/

import Shanty.Target.Llvm.Emission
import Shanty.Target.Mips.Emission
import Shanty.Target.X64.Emission

namespace Shanty

/-- A target. -/
inductive Target
  | x64
  | mips
  | llvm
  deriving DecidableEq

namespace Target

/-- The name of a target. -/
def name : Target → String
  | .x64 => "x64"
  | .mips => "mips"
  | .llvm => "llvm"

/-- What emission for a target produces, in words. -/
def product : Target → String
  | .x64 => "x64 assembly"
  | .mips => "MIPS assembly"
  | .llvm => "LLVM IR"

/-- The target with a name. -/
def ofName? (name : String) : Option Target :=
  [x64, mips, llvm].find? fun target => target.name = name

/-- The complaint about a name that no target has, where one is asked for. -/
def unknownNameMessage (name : String) : String :=
  "unknown target `" ++ name ++ "`: expected one of x64, mips or llvm"

/-- The code of a program for a target, and where its storage lies afterwards. -/
def emit (target : Target) (program : Code.Program) (placement : Placement) :
    Placement × Except Fault String :=
  match target with
  | .x64 => X64.emit program placement
  | .mips => Mips.emit program placement
  | .llvm => (placement, Llvm.emit program)

end Target

/-- Why code was not delivered although it could be made. -/
inductive EmitError
  | unknownTarget (name : String)
  | unwritable (target : Target) (reason : String)

/-- The error in words. -/
def EmitError.message : EmitError → String
  | .unknownTarget name => "unknown target `" ++ name ++ "`"
  | .unwritable target reason => "failed to write " ++ target.product ++ ": " ++ reason

end Shanty
