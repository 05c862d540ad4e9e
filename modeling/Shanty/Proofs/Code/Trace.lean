/-
# What a run goes through

The instructions that decide no more than where to go on are invisible from outside.
A trace lists all other instructions of a run as the machine comes to them, each with
the store and the activation that it finds. Two machines have the same runs when
their traces have the same beginnings and they finish with the same stores.

A ranked simulation shows that two machines have the same runs. The first machine
may take steps of its own as long as they are invisible and its rank goes down, so it
cannot do so forever; all other steps are taken by both.
-/

import Shanty.Proofs.Code.Machine

namespace Shanty.Code

/-- Whether an instruction does more than decide where to go on. -/
def Instr.isVisible : Instr → Bool
  | .nop | .goto _ | .ifZero _ _ => false
  | _ => true

/-- An instruction that a run comes to, with the store and the activation that it
finds. -/
structure Visit where
  instr : Instr
  store : Store
  activation : Activation

/-- The visible instruction in front of the machine, if there is one. -/
def Config.visit (config : Config) : List Visit :=
  match config.frames with
  | [] => []
  | frame :: _ =>
    match frame.rest with
    | [] => []
    | quad :: _ =>
      if quad.instr.isVisible then [⟨quad.instr, config.store, frame.activation⟩] else []

/-- The visible instructions that a run comes to in a number of steps. The last one
need not be possible. -/
def trace (program : Program) : Nat → Config → List Visit
  | 0, _ => []
  | count + 1, config =>
    config.visit ++
      match step program config with
      | none => []
      | some next => trace program count next

/-- Two machines go through the same visible instructions, with the same stores, for
as long as either runs, and if one finishes then so does the other. -/
structure SameRuns (program program' : Program) (config config' : Config) : Prop where
  forward : ∀ count, ∃ count', trace program' count' config' = trace program count config
  backward : ∀ count', ∃ count, trace program count config = trace program' count' config'
  finishes : ∀ store, Finishes program config store ↔ Finishes program' config' store

namespace SameRuns

theorem refl (program : Program) (config : Config) :
    SameRuns program program config config :=
  ⟨fun count => ⟨count, rfl⟩, fun count => ⟨count, rfl⟩, fun _ => Iff.rfl⟩

theorem trans {first second third : Program} {start middle final : Config}
    (left : SameRuns first second start middle)
    (right : SameRuns second third middle final) : SameRuns first third start final where
  forward count := by
    obtain ⟨between, hbetween⟩ := left.forward count
    obtain ⟨count', hcount'⟩ := right.forward between
    exact ⟨count', hcount'.trans hbetween⟩
  backward count' := by
    obtain ⟨between, hbetween⟩ := right.backward count'
    obtain ⟨count, hcount⟩ := left.backward between
    exact ⟨count, hcount.trans hbetween⟩
  finishes store := (left.finishes store).trans (right.finishes store)

end SameRuns

/-- A relation between the configurations of two machines that their steps keep. The
first machine may move alone if that is invisible and lowers its rank. -/
structure RankedSimulation (program program' : Program)
    (related : Config → Config → Prop) (rank : Config → Nat) : Prop where
  store {config config' : Config} : related config config' → config'.store = config.store
  finished {config config' : Config} :
    related config config' → (config.frames = [] ↔ config'.frames = [])
  step {config config' : Config} : related config config' →
    (∃ next, step program config = some next ∧ config.visit = [] ∧
      related next config' ∧ rank next < rank config) ∨
    (config.visit = config'.visit ∧
      Option.Rel related (step program config) (step program' config'))

namespace RankedSimulation

variable {program program' : Program} {related : Config → Config → Prop}
  {rank : Config → Nat}

/-- Every trace of the first machine is one of the second. -/
theorem forward (simulation : RankedSimulation program program' related rank) :
    ∀ (count : Nat) {config config' : Config}, related config config' →
      ∃ count', trace program' count' config' = trace program count config := by
  intro count
  induction count with
  | zero => intro config config' _; exact ⟨0, rfl⟩
  | succ count ih =>
      intro config config' hrelated
      rcases simulation.step hrelated with ⟨next, hstep, hvisit, hnext, _⟩ | ⟨hvisit, hboth⟩
      · obtain ⟨count', hcount'⟩ := ih hnext
        exact ⟨count', by rw [hcount', trace, hvisit, hstep, List.nil_append]⟩
      · rw [trace, hvisit]
        generalize hfirst : Code.step program config = first at hboth
        generalize hsecond : Code.step program' config' = second at hboth
        cases hboth with
        | none => exact ⟨1, by rw [trace, hsecond]⟩
        | some hnext =>
            obtain ⟨count', hcount'⟩ := ih hnext
            exact ⟨count' + 1, by rw [trace, hsecond]; simp only [hcount']⟩

/-- Every trace of the second machine is one of the first. -/
theorem backward (simulation : RankedSimulation program program' related rank) :
    ∀ (count' : Nat) {config config' : Config}, related config config' →
      ∃ count, trace program count config = trace program' count' config' := by
  intro count'
  induction count' with
  | zero => intro config config' _; exact ⟨0, rfl⟩
  | succ count' ih =>
      intro config config' hrelated
      -- The first machine catches up before both move on.
      induction hrank : rank config using Nat.strongRecOn generalizing config with
      | ind bound ihRank =>
          rcases simulation.step hrelated with
            ⟨next, hstep, hvisit, hnext, hless⟩ | ⟨hvisit, hboth⟩
          · obtain ⟨count, hcount⟩ := ihRank (rank next) (hrank ▸ hless) hnext rfl
            exact ⟨count + 1, by rw [trace, hvisit, hstep, List.nil_append]; exact hcount⟩
          · rw [trace, ← hvisit]
            generalize hfirst : Code.step program config = first at hboth
            generalize hsecond : Code.step program' config' = second at hboth
            cases hboth with
            | none => exact ⟨1, by rw [trace, hfirst]⟩
            | some hnext =>
                obtain ⟨count, hcount⟩ := ih hnext
                exact ⟨count + 1, by rw [trace, hfirst]; simp only [hcount]⟩

private theorem finished_iff (simulation : RankedSimulation program program' related rank)
    {config config' : Config} (hrelated : related config config') (store : Store) :
    config = ⟨store, []⟩ ↔ config' = ⟨store, []⟩ := by
  have hstore := simulation.store hrelated
  have hframes := simulation.finished hrelated
  cases config
  cases config'
  simp_all

/-- If the first machine finishes then so does the second, with the same store. -/
theorem finishes_forward (simulation : RankedSimulation program program' related rank)
    {store : Store} :
    ∀ (count : Nat) {config config' : Config}, related config config' →
      steps program count config = some ⟨store, []⟩ → Finishes program' config' store := by
  intro count
  induction count with
  | zero =>
      intro config config' hrelated hsteps
      exact ⟨0, congrArg some ((simulation.finished_iff hrelated store).1 (Option.some.inj hsteps))⟩
  | succ count ih =>
      intro config config' hrelated hsteps
      rcases simulation.step hrelated with ⟨next, hstep, _, hnext, _⟩ | ⟨_, hboth⟩
      · rw [steps, hstep] at hsteps
        exact ih hnext hsteps
      · rw [steps] at hsteps
        generalize hfirst : Code.step program config = first at hboth hsteps
        generalize hsecond : Code.step program' config' = second at hboth
        cases hboth with
        | none => cases hsteps
        | some hnext =>
            obtain ⟨count', hcount'⟩ := ih hnext hsteps
            exact ⟨count' + 1, by rw [steps, hsecond]; exact hcount'⟩

/-- If the second machine finishes then so does the first, with the same store. -/
theorem finishes_backward (simulation : RankedSimulation program program' related rank)
    {store : Store} :
    ∀ (count' : Nat) {config config' : Config}, related config config' →
      steps program' count' config' = some ⟨store, []⟩ → Finishes program config store := by
  intro count'
  induction count' with
  | zero =>
      intro config config' hrelated hsteps
      exact ⟨0, congrArg some ((simulation.finished_iff hrelated store).2 (Option.some.inj hsteps))⟩
  | succ count' ih =>
      intro config config' hrelated hsteps
      induction hrank : rank config using Nat.strongRecOn generalizing config with
      | ind bound ihRank =>
          rcases simulation.step hrelated with ⟨next, hstep, _, hnext, hless⟩ | ⟨_, hboth⟩
          · obtain ⟨count, hcount⟩ := ihRank (rank next) (hrank ▸ hless) hnext rfl
            exact ⟨count + 1, by rw [steps, hstep]; exact hcount⟩
          · rw [steps] at hsteps
            generalize hfirst : Code.step program config = first at hboth
            generalize hsecond : Code.step program' config' = second at hboth hsteps
            cases hboth with
            | none => cases hsteps
            | some hnext =>
                obtain ⟨count, hcount⟩ := ih hnext hsteps
                exact ⟨count + 1, by rw [steps, hfirst]; exact hcount⟩

/-- Related configurations have the same runs. -/
theorem sameRuns (simulation : RankedSimulation program program' related rank)
    {config config' : Config} (hrelated : related config config') :
    SameRuns program program' config config' where
  forward count := simulation.forward count hrelated
  backward count' := simulation.backward count' hrelated
  finishes store := by
    constructor
    · rintro ⟨count, hcount⟩
      exact simulation.finishes_forward count hrelated hcount
    · rintro ⟨count', hcount'⟩
      exact simulation.finishes_backward count' hrelated hcount'

end RankedSimulation

end Shanty.Code
