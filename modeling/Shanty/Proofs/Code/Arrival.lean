/-
# How a run gets to some code

Code that carries no label cannot be jumped to. If the machine is in front of such code, and this is
not where its procedure begins, then it has run the quad before, and the same activation has been in
front of that quad. A call is run when the procedure that it calls has ended.

Where an activation has been is a matter of the whole run, so the invariant says it of each
activation under way, also of those that wait. An activation that waits has not yet been behind its
call, but the run has come from there.
-/

import Shanty.Proofs.Code.Crossing

namespace Shanty.Code

variable {program : Program} {inputs : List Int64} {config config' : Config} {frame : Frame}
  {callers : List Frame}

/-- The run of a program on some input comes to a configuration. -/
def Visits (program : Program) (inputs : List Int64) (config : Config) : Prop :=
  ∃ main, program.procedure? "main" = some main ∧
    Reaches program ⟨Store.handOver { inputs }, [main.begin { inputs }]⟩ config

theorem Visits.step (hvisits : Visits program inputs config)
    (hstep : Code.step program config = some config') : Visits program inputs config' := by
  obtain ⟨main, hmain, hreaches⟩ := hvisits
  exact ⟨main, hmain, hreaches.trans (.single hstep)⟩

/-- Some quads do not begin with a label. -/
def Unlabelled (quads : List Quad) : Prop := ∀ quad ∈ quads.head?, quad.labels = []

/-- The stage of an activation with the activations that wait for it. -/
def Frame.stage (frame : Frame) (callers : List Frame) : Stage :=
  ⟨frame.procedure, frame.activation, callers⟩

/-- An activation under way is somewhere in its procedure. If what it has still to run begins
without a label and stands behind some straight quad, the run has come from in front of this quad.
-/
structure Frame.Traced (program : Program) (inputs : List Int64) (config : Config) (frame : Frame)
    (callers : List Frame) : Prop where
  suffix : frame.rest <:+ frame.procedure.quads
  past : Unlabelled frame.rest → ∀ quad, quad :: frame.rest <:+ frame.procedure.quads →
    quad.instr.Straight program → ∃ store,
      Visits program inputs ((frame.stage callers).config store (quad :: frame.rest)) ∧
      (frame.stage callers).Tries program quad frame.rest store config

/-- Some activations, each of which waits for those in front of it, are traced. -/
def TracedAll (program : Program) (inputs : List Int64) (config : Config) (frames : List Frame) :
    Prop :=
  ∀ frame callers, frame :: callers <:+ frames → frame.Traced program inputs config callers

theorem TracedAll.cons (hframe : frame.Traced program inputs config callers)
    (hcallers : TracedAll program inputs config callers) :
    TracedAll program inputs config (frame :: callers) := by
  intro frame' callers' hsuffix
  obtain heq | hsuffix := List.suffix_cons_iff.1 hsuffix
  · cases heq
    exact hframe
  · exact hcallers frame' callers' hsuffix

/-- Quads in front of some quads are the same if they stand behind the same. -/
theorem eq_of_cons_suffix {quad quad' : Quad} {rest quads : List Quad}
    (hsuffix : quad :: rest <:+ quads) (hsuffix' : quad' :: rest <:+ quads) : quad = quad' := by
  have hsame := List.suffix_of_suffix_length_le hsuffix hsuffix' (Nat.le_refl _)
  exact (List.cons.inj (hsame.eq_of_length rfl)).1

/-- No activation begins behind a quad. -/
theorem Frame.traced_begin {procedure : Procedure} (store : Store) (config : Config)
    (callers : List Frame) : (procedure.begin store).Traced program inputs config callers where
  suffix := List.suffix_refl _
  past := by
    intro _ quad hsuffix
    have hlength := hsuffix.length_le
    simp only [Procedure.begin, List.length_cons] at hlength
    omega

/-- An activation that waits stays as it is during a step of another one. -/
theorem Frame.Traced.wait (htraced : frame.Traced program inputs config callers)
    (hstep : step program config = some config')
    (hwaits : callers.length + 1 < config.frames.length) :
    frame.Traced program inputs config' callers where
  suffix := htraced.suffix
  past := by
    intro hunlabelled quad hsuffix hstraight
    obtain ⟨store, hvisits, count, hcount, hnot⟩ := htraced.past hunlabelled quad hsuffix hstraight
    refine ⟨store, hvisits, count + 1, steps_add hcount ?_, ?_⟩
    · rw [steps, hstep]
      rfl
    · intro earlier hearlier store'' hthere
      obtain hlt | rfl := Nat.lt_or_eq_of_le (Nat.le_of_lt_succ hearlier)
      · exact hnot earlier hlt store'' hthere
      · rw [hcount] at hthere
        cases hthere
        exact Nat.lt_irrefl _ hwaits

/-- The innermost activation has run a quad, or it has called a procedure with it. -/
theorem Frame.traced_behind {procedure : Procedure} {self self' : Activation} {quad : Quad}
    {rest : List Quad} {store store' : Store} (hsuffix : quad :: rest <:+ procedure.quads)
    (hvisits : Visits program inputs ⟨store, ⟨procedure, self, quad :: rest⟩ :: callers⟩)
    (heffect : quad.instr.effect program store self = some (store', self'))
    (hstep : step program ⟨store, ⟨procedure, self, quad :: rest⟩ :: callers⟩ = some config') :
    Frame.Traced program inputs config' ⟨procedure, self', rest⟩ callers where
  suffix := (List.suffix_cons quad rest).trans hsuffix
  past := by
    intro _ quad' hsuffix' hstraight
    obtain rfl := eq_of_cons_suffix hsuffix hsuffix'
    obtain rfl : self' = self := (Instr.effect_changes heffect).same hstraight.unset
    exact ⟨store, hvisits, Stage.tries_single hstep⟩

/-- A step leads from traced activations to traced activations. -/
theorem TracedAll.step (htraced : TracedAll program inputs config config.frames)
    (hvisits : Visits program inputs config) (hstep : Code.step program config = some config') :
    TracedAll program inputs config' config'.frames := by
  obtain ⟨store, frames⟩ := config
  cases frames with
  | nil => cases hstep
  | cons frame callers =>
      obtain ⟨procedure, self, quads⟩ := frame
      have htop := htraced _ _ (List.suffix_refl _)
      have hwait : TracedAll program inputs config' callers := by
        intro frame' callers' hsuffix
        refine (htraced frame' callers' (hsuffix.trans (List.suffix_cons _ _))).wait hstep ?_
        exact Nat.succ_lt_succ hsuffix.length_le
      cases quads with
      | nil => cases hstep
      | cons quad rest =>
          have hnext := hstep
          simp only [Code.step, Option.bind_eq_bind, Option.bind_eq_some_iff] at hnext
          obtain ⟨⟨store₁, self'⟩, heffect, hproceed⟩ := hnext
          have hbehind := Frame.traced_behind htop.suffix hvisits heffect hstep
          cases hcourse : quad.instr.course program store self with
          | next =>
              rw [hcourse] at hproceed
              cases hproceed
              exact .cons hbehind hwait
          | jump label =>
              simp only [hcourse, proceed] at hproceed
              cases hseek : seek label procedure.quads with
              | nil =>
                  rw [hseek] at hproceed
                  cases hproceed
              | cons target rest' =>
                  rw [hseek] at hproceed
                  cases hproceed
                  refine .cons ⟨hseek ▸ seek_suffix label procedure.quads, ?_⟩ hwait
                  exact fun hunlabelled => absurd (hunlabelled _ rfl) (labels_ne_nil_of_seek hseek)
          | call callee =>
              simp only [hcourse, proceed, Option.bind_eq_bind, Option.bind_eq_some_iff] at hproceed
              obtain ⟨called, _, hproceed⟩ := hproceed
              cases hproceed
              exact .cons (Frame.traced_begin _ _ _) (.cons hbehind hwait)
          | leave =>
              rw [hcourse] at hproceed
              cases hproceed
              exact hwait

theorem TracedAll.steps {count : Nat} (htraced : TracedAll program inputs config config.frames)
    (hvisits : Visits program inputs config) (hcount : steps program count config = some config') :
    TracedAll program inputs config' config'.frames := by
  induction count generalizing config with
  | zero =>
      cases hcount
      exact htraced
  | succ count ih =>
      rw [Code.steps, Option.bind_eq_bind, Option.bind_eq_some_iff] at hcount
      obtain ⟨next, hstep, hcount⟩ := hcount
      exact ih (htraced.step hvisits hstep) (hvisits.step hstep) hcount

/-- The activations of every configuration that a run comes to are traced. -/
theorem Visits.traced (hvisits : Visits program inputs config) :
    TracedAll program inputs config config.frames := by
  obtain ⟨main, hmain, count, hcount⟩ := hvisits
  refine TracedAll.steps ?_ ⟨main, hmain, .refl _⟩ hcount
  refine .cons (Frame.traced_begin _ _ _) ?_
  intro frame callers hsuffix
  cases List.suffix_nil.1 hsuffix

/-- Quads that are run from the first to the last. -/
structure StraightLine (program : Program) (body : List Quad) : Prop where
  labels : labelsOf body = []
  straight : ∀ quad ∈ body, quad.instr.Straight program

theorem StraightLine.append {first second : List Quad} (hfirst : StraightLine program first)
    (hsecond : StraightLine program second) : StraightLine program (first ++ second) where
  labels := List.flatMap_append.trans (List.append_eq_nil_iff.2 ⟨hfirst.labels, hsecond.labels⟩)
  straight := List.forall_mem_append.2 ⟨hfirst.straight, hsecond.straight⟩

theorem StraightLine.of_cons {quad : Quad} {body : List Quad}
    (hline : StraightLine program (quad :: body)) :
    quad.labels = [] ∧ quad.instr.Straight program ∧ StraightLine program body := by
  obtain ⟨hlabels, hstraight⟩ := hline
  simp only [labelsOf, List.flatMap_cons, List.append_eq_nil_iff] at hlabels
  rw [List.forall_mem_cons] at hstraight
  exact ⟨hlabels.1, hstraight.1, hlabels.2, hstraight.2⟩

theorem StraightLine.unlabelled {body rest : List Quad} (hline : StraightLine program body)
    (hrest : Unlabelled rest) : Unlabelled (body ++ rest) := by
  cases body with
  | nil => exact hrest
  | cons quad body =>
      rintro _ ⟨⟩
      exact hline.of_cons.1

/-- Whoever gets behind a straight line has been in front of it and has crossed it. -/
theorem Visits.crosses {stage : Stage} {front body rest : List Quad} {used : Store}
    (hvisits : Visits program inputs (stage.config used rest))
    (hquads : stage.procedure.quads = front ++ (body ++ rest)) (hline : StraightLine program body)
    (hrest : Unlabelled rest) :
    ∃ before, Visits program inputs (stage.config before (body ++ rest)) ∧
      stage.Crosses program body rest before used := by
  induction body generalizing front with
  | nil => exact ⟨used, hvisits, rfl⟩
  | cons quad body ih =>
      obtain ⟨_, hstraight, hline⟩ := hline.of_cons
      have hquads' : stage.procedure.quads = front ++ [quad] ++ (body ++ rest) := by
        rw [hquads, List.append_assoc]
        rfl
      obtain ⟨between, hvisits', hcrosses⟩ := ih hquads' hline
      have htraced := hvisits'.traced _ _ (List.suffix_refl _)
      obtain ⟨before, hbefore, hruns⟩ :=
        htraced.past (hline.unlabelled hrest) quad ⟨front, hquads.symm⟩ hstraight
      exact ⟨before, hbefore, between, hruns, hcrosses⟩

end Shanty.Code
