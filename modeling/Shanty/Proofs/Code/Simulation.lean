/-
# Runs that follow an evaluation

What it means that the machine does what an evaluation says. If the evaluation has a result, the
machine gets to a configuration that suits the result. If the evaluation is stuck, the machine gets
stuck. And if the evaluation runs out of fuel, the machine takes at least as many steps as there
was fuel. So the machine finishes only if the evaluation has a result for some amount of fuel, and
with that result.

The fuel is what makes one statement out of the two directions: for a machine that finishes, the
number of its steps is an amount of fuel that the evaluation cannot run out of.
-/

import Shanty.Proofs.Code.Machine
import Shanty.Proofs.Evaluation

namespace Shanty.Code

open Shanty.Evaluation (Halt World)

/-- The machine gets from one configuration to another. -/
def Reaches (program : Program) (config config' : Config) : Prop :=
  ∃ count, steps program count config = some config'

theorem steps_add {program : Program} {config config' config'' : Config} {count count' : Nat}
    (hfirst : steps program count config = some config')
    (hsecond : steps program count' config' = some config'') :
    steps program (count + count') config = some config'' := by
  induction count generalizing config with
  | zero =>
      cases hfirst
      rwa [Nat.zero_add]
  | succ count ih =>
      rw [steps] at hfirst
      cases hstep : step program config with
      | none => rw [hstep] at hfirst; cases hfirst
      | some next =>
          rw [hstep] at hfirst
          rw [Nat.succ_add, steps, hstep]
          exact ih hfirst

namespace Reaches

variable {program : Program} {config config' config'' : Config}

theorem refl (config : Config) : Reaches program config config := ⟨0, rfl⟩

theorem trans (hfirst : Reaches program config config')
    (hsecond : Reaches program config' config'') : Reaches program config config'' := by
  obtain ⟨count, hcount⟩ := hfirst
  obtain ⟨count', hcount'⟩ := hsecond
  exact ⟨count + count', steps_add hcount hcount'⟩

theorem single (hstep : step program config = some config') : Reaches program config config' :=
  ⟨1, by rw [steps, hstep]; rfl⟩

end Reaches

/-- The machine does what an evaluation with some fuel says. -/
def Follows (program : Program) (fuel : Nat) {α : Type} (outcome : Except Halt α) (config : Config)
    (post : α → Config → Prop) : Prop :=
  match outcome with
  | .ok answer => ∃ config', Reaches program config config' ∧ post answer config'
  | .error .stuck => ∃ config', Reaches program config config' ∧ config'.frames ≠ [] ∧
      step program config' = none
  | .error .outOfFuel => ∃ count config', fuel ≤ count ∧
      steps program count config = some config'

namespace Follows

variable {program : Program} {fuel : Nat} {α β : Type} {config config' : Config}
  {outcome : Except Halt α} {post : α → Config → Prop} {post' : β → Config → Prop}

theorem ok {answer : α} (hpost : post answer config) :
    Follows program fuel (.ok answer) config post :=
  ⟨config, .refl config, hpost⟩

theorem stuck (hstuck : config.frames ≠ [] ∧ step program config = none) :
    Follows program fuel (.error .stuck) config post :=
  ⟨config, .refl config, hstuck⟩

/-- The machine may first get to another configuration. -/
theorem after (hreaches : Reaches program config config')
    (hfollows : Follows program fuel outcome config' post) :
    Follows program fuel outcome config post := by
  match outcome with
  | .ok answer =>
      obtain ⟨final, hfinal, hpost⟩ := hfollows
      exact ⟨final, hreaches.trans hfinal, hpost⟩
  | .error .stuck =>
      obtain ⟨final, hfinal, hstuck⟩ := hfollows
      exact ⟨final, hreaches.trans hfinal, hstuck⟩
  | .error .outOfFuel =>
      obtain ⟨count, hcount⟩ := hreaches
      obtain ⟨count', final, hle, hcount'⟩ := hfollows
      exact ⟨count + count', final, Nat.le_trans hle (Nat.le_add_left _ _),
        steps_add hcount hcount'⟩

/-- A step pays for a unit of fuel. -/
theorem step (hstep : Code.step program config = some config')
    (hfollows : Follows program fuel outcome config' post) :
    Follows program (fuel + 1) outcome config post := by
  match outcome with
  | .ok answer => exact hfollows.after (.single hstep)
  | .error .stuck => exact hfollows.after (.single hstep)
  | .error .outOfFuel =>
      obtain ⟨count, final, hle, hcount⟩ := hfollows
      exact ⟨count + 1, final, Nat.succ_le_succ hle, by rw [steps, hstep]; exact hcount⟩

/-- Less fuel is followed as well as more. -/
theorem weaken {less : Nat} (hle : less ≤ fuel) (hfollows : Follows program fuel outcome config post) :
    Follows program less outcome config post := by
  match outcome with
  | .ok answer => exact hfollows
  | .error .stuck => exact hfollows
  | .error .outOfFuel =>
      obtain ⟨count, final, hle', hcount⟩ := hfollows
      exact ⟨count, final, Nat.le_trans hle hle', hcount⟩

/-- The machine may go on after an evaluation has had its result. -/
theorem extend {later : α → Config → Prop} (hfollows : Follows program fuel outcome config post)
    (hlater : ∀ answer config', post answer config' →
      ∃ config'', Reaches program config' config'' ∧ later answer config'') :
    Follows program fuel outcome config later := by
  match outcome with
  | .ok answer =>
      obtain ⟨config', hconfig', hpost⟩ := hfollows
      obtain ⟨config'', hconfig'', hlast⟩ := hlater answer config' hpost
      exact ⟨config'', hconfig'.trans hconfig'', hlast⟩
  | .error .stuck => exact hfollows
  | .error .outOfFuel => exact hfollows

theorem bind {next : α → Except Halt β} (hfirst : Follows program fuel outcome config post)
    (hnext : ∀ answer config', post answer config' →
      Follows program fuel (next answer) config' post') :
    Follows program fuel (outcome >>= next) config post' := by
  match outcome with
  | .ok answer =>
      obtain ⟨middle, hmiddle, hpost⟩ := hfirst
      exact (hnext answer middle hpost).after hmiddle
  | .error .stuck => exact hfirst
  | .error .outOfFuel => exact hfirst

/-- Where an evaluation may be stuck, the machine has to be stuck as well. -/
theorem orStuck {answer? : Option α} {next : α → Except Halt β}
    (hnone : answer? = none → config.frames ≠ [] ∧ Code.step program config = none)
    (hsome : ∀ answer, answer? = some answer →
      Follows program fuel (next answer) config post') :
    Follows program fuel (Evaluation.orStuck answer? >>= next) config post' := by
  cases hanswer : answer? with
  | none => exact stuck (hnone hanswer)
  | some answer => exact hsome answer hanswer

end Follows

/-- A configuration that the machine cannot leave is the end of every run through it. -/
theorem eq_of_step_eq_none {program : Program} {config final final' : Config}
    (hreaches : Reaches program config final) (hstep : step program final = none)
    (hreaches' : Reaches program config final') (hstep' : step program final' = none) :
    final = final' := by
  obtain ⟨count, hcount⟩ := hreaches
  obtain ⟨count', hcount'⟩ := hreaches'
  induction count generalizing config count' with
  | zero =>
      cases hcount
      cases count' with
      | zero => exact Option.some.inj hcount'
      | succ count' => rw [steps, hstep] at hcount'; cases hcount'
  | succ count ih =>
      rw [steps] at hcount
      cases hnext : step program config with
      | none => rw [hnext] at hcount; cases hcount
      | some next =>
          rw [hnext] at hcount
          cases count' with
          | zero =>
              cases hcount'
              rw [hstep'] at hnext
              cases hnext
          | succ count' =>
              rw [steps, hnext] at hcount'
              exact ih hcount count' hcount'

/-- The machine takes no more steps than it takes to get to a configuration that it cannot
leave. -/
theorem le_of_step_eq_none {program : Program} {config config' final : Config}
    {count count' : Nat} (hcount : steps program count config = some final)
    (hstep : step program final = none) (hcount' : steps program count' config = some config') :
    count' ≤ count := by
  induction count generalizing config count' with
  | zero =>
      cases hcount
      cases count' with
      | zero => exact Nat.le_refl _
      | succ count' => rw [steps, hstep] at hcount'; cases hcount'
  | succ count ih =>
      cases count' with
      | zero => exact Nat.zero_le _
      | succ count' =>
          rw [steps] at hcount hcount'
          cases hnext : step program config with
          | none => rw [hnext] at hcount; cases hcount
          | some next =>
              rw [hnext] at hcount hcount'
              exact Nat.succ_le_succ (ih hcount hcount')

/-- If the machine follows an evaluation whatever the fuel is, and it finishes, then the
evaluation has a result for some amount of fuel. -/
theorem exists_ok_of_finishes {program : Program} {α : Type} {evaluate : Nat → Except Halt α}
    {config final : Config} {post : α → Config → Prop}
    (hfollows : ∀ fuel, Follows program fuel (evaluate fuel) config post)
    (hfinal : Reaches program config final) (hframes : final.frames = []) :
    ∃ fuel answer, evaluate fuel = .ok answer := by
  obtain ⟨count, hcount⟩ := hfinal
  have hstep : step program final = none := by simp only [step, hframes]
  have hmore := hfollows (count + 1)
  cases houtcome : evaluate (count + 1) with
  | ok answer => exact ⟨_, answer, houtcome⟩
  | error halt =>
      rw [houtcome] at hmore
      cases halt with
      | stuck =>
          obtain ⟨config', hconfig', hframes', hstep'⟩ := hmore
          obtain rfl := eq_of_step_eq_none hconfig' hstep' ⟨count, hcount⟩ hstep
          exact absurd hframes hframes'
      | outOfFuel =>
          obtain ⟨count', config', hle, hcount'⟩ := hmore
          have hle' := le_of_step_eq_none hcount hstep hcount'
          omega

/-- Where code runs: a procedure, one of its activations, and the activations that wait for it. -/
structure Stage where
  procedure : Procedure
  activation : Activation
  callers : List Frame

namespace Stage

/-- The configuration with some quads in front of the machine. -/
def config (stage : Stage) (store : Store) (rest : List Quad) : Config :=
  ⟨store, ⟨stage.procedure, stage.activation, rest⟩ :: stage.callers⟩

variable {program : Program} {stage : Stage} {store store' : Store} {quad : Quad}
  {rest : List Quad}

theorem step_next (heffect : quad.instr.effect program store stage.activation =
      some (store', stage.activation))
    (hcourse : quad.instr.course program store stage.activation = .next) :
    step program (stage.config store (quad :: rest)) = some (stage.config store' rest) := by
  simp only [step, config, heffect, hcourse]
  rfl

/-- An instruction without an effect leaves the machine stuck. -/
theorem step_stuck (heffect : quad.instr.effect program store stage.activation = none) :
    (stage.config store (quad :: rest)).frames ≠ [] ∧
      step program (stage.config store (quad :: rest)) = none := by
  refine ⟨List.cons_ne_nil _ _, ?_⟩
  simp only [step, config, heffect]
  rfl

/-- A jump goes to the quad that carries the label. -/
theorem step_jump {label : Label} {target : Quad} {rest' : List Quad}
    (heffect : quad.instr.effect program store stage.activation = some (store, stage.activation))
    (hcourse : quad.instr.course program store stage.activation = .jump label)
    (hseek : seek label stage.procedure.quads = target :: rest') :
    step program (stage.config store (quad :: rest)) = some (stage.config store (target :: rest')) := by
  simp only [step, config, heffect, hcourse, Option.bind_eq_bind, Option.bind_some, proceed, hseek]

end Stage

/-- A label is found at the quad that carries it if no two quads carry the same label. -/
theorem seek_of_suffix {label : Label} {quad : Quad} {rest quads : List Quad}
    (hnodup : (labelsOf quads).Nodup) (hsuffix : quad :: rest <:+ quads)
    (hmem : label ∈ quad.labels) : seek label quads = quad :: rest := by
  obtain ⟨front, rfl⟩ := hsuffix
  apply seek_append_cons _ hmem
  intro hfront
  simp only [labelsOf, List.flatMap_append, List.flatMap_cons, List.nodup_append] at hnodup
  exact hnodup.2.2 label hfront label (List.mem_append_left _ hmem) rfl

end Shanty.Code
