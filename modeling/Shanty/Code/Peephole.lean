/-
# Removing quads without effect

Two kinds of quads can go without changing what a procedure does: those that do
nothing, and jumps to the quad that comes next anyway. The labels of a quad that is
removed move on to the next one that stays.

A single sweep removes quads by a test that looks at a quad and the one after it as
they were before the sweep. Removing a jump can bring another one next to its
target, so the jumps are swept until none goes.
-/

import Shanty.Code.Program

namespace Shanty.Code.Peephole

/-- Removes each quad of a list for which the test holds of it and the quad after
it. The last quad always stays. A quad that stays takes over the labels of those
removed right before it, the labels of the nearest one first. -/
def sweep (removes : Quad → Quad → Bool) (carried : List Label) : List Quad → List Quad
  | [] => []
  | [last] => [last.addLabels carried]
  | quad :: next :: rest =>
    if removes quad next then sweep removes (quad.labels ++ carried) (next :: rest)
    else quad.addLabels carried :: sweep removes [] (next :: rest)

/-- Whether a quad does nothing. -/
def isIdle (quad _next : Quad) : Bool := quad.instr.isNop

/-- Whether a quad jumps at most to the quad after it. -/
def isVainJump (quad next : Quad) : Bool :=
  match quad.instr.jumpTarget? with
  | some target => next.hasLabel target
  | none => false

/-- A sweep does not make a list longer. -/
theorem length_sweep_le (removes : Quad → Quad → Bool) (carried : List Label)
    (quads : List Quad) : (sweep removes carried quads).length ≤ quads.length := by
  fun_induction sweep removes carried quads with
  | case1 => simp
  | case2 => simp
  | case3 carried quad next rest _ ih => simp only [List.length_cons] at ih ⊢; omega
  | case4 carried quad next rest _ ih => simp only [List.length_cons] at ih ⊢; omega

/-- Sweeps the jumps that do nothing until none is left. -/
def removeJumps (quads : List Quad) : List Quad :=
  let swept := sweep isVainJump [] quads
  if swept.length < quads.length then removeJumps swept else quads
termination_by quads.length

/-- Removes all quads without effect. -/
def tidy (quads : List Quad) : List Quad := removeJumps (sweep isIdle [] quads)

end Peephole

/-- The procedure without the quads that have no effect. The quad at which it is left
takes part, because labels may move on to it. -/
def Procedure.optimize (procedure : Procedure) : Procedure :=
  let quads := Peephole.tidy (procedure.body ++ [procedure.leaveQuad])
  { procedure with
    body := quads.dropLast
    exitLabels := (quads.getLast?.map (·.labels)).getD procedure.exitLabels }

/-- The program without the quads that have no effect. -/
def Program.optimize (program : Program) : Program :=
  { program with procedures := program.procedures.map (·.optimize) }

/-- The number of quads that optimizing a program removes. -/
def Program.removable (program : Program) : Nat :=
  program.bodySize - program.optimize.bodySize

end Shanty.Code
