/-
# Running instructions

A machine runs instructions one after the other as long as none of them leads somewhere else. What an
instruction does is up to the machine; here it is only said how a run is put together.
-/

import Shanty.Target.Storage

namespace Shanty.Target

/-- Where a machine goes on after an instruction. -/
inductive Route
  | next
  | jump (label : String)
  | call (label : String)
  | ret
  /-- What is around the machine does something for it before it goes on. -/
  | service
  deriving DecidableEq

variable {Instr State : Type} {exec : Instr → State → Option (State × Route)}
  {front back rest : List Instr} {instr : Instr} {state state' : State}

/-- Runs instructions up to the first one that does not lead to the next one. -/
def run (exec : Instr → State → Option (State × Route)) :
    List Instr → State → Option (State × Route)
  | [], state => some (state, .next)
  | instr :: rest, state => do
    let (state, route) ← exec instr state
    if route = .next then run exec rest state else some (state, route)

theorem run_cons_next (hexec : exec instr state = some (state', .next)) :
    run exec (instr :: rest) state = run exec rest state' := by
  rw [run, hexec]
  rfl

theorem run_append (hfront : run exec front state = some (state', .next)) :
    run exec (front ++ back) state = run exec back state' := by
  induction front generalizing state with
  | nil =>
      cases hfront
      rfl
  | cons instr front ih =>
      rw [run] at hfront
      rw [List.cons_append, run]
      cases hexec : exec instr state with
      | none =>
          rw [hexec] at hfront
          cases hfront
      | some after =>
          obtain ⟨middle, route⟩ := after
          rw [hexec] at hfront
          by_cases hnext : route = .next
          · simp only [Option.bind_eq_bind, Option.bind_some, if_pos hnext] at hfront ⊢
            exact ih hfront
          · simp only [Option.bind_eq_bind, Option.bind_some, if_neg hnext, Option.some.injEq,
              Prod.mk.injEq] at hfront
            exact absurd hfront.2 hnext

theorem run_single (hexec : exec instr state = some (state', .next)) :
    run exec [instr] state = some (state', .next) := by
  rw [run_cons_next hexec]
  rfl

end Shanty.Target
