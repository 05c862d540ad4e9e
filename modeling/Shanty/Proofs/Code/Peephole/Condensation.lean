/-
# What optimizing leaves of the code

Optimizing a procedure condenses its code. The code falls into stretches one after the other, and of
each stretch the last quad stays. It is the quad that it was, with all labels of the stretch: its own
come first, then those of the quads in front of it, from the nearest one on. So a label ends up on the
first quad that stays at the place where it was or behind it, and the order of what stays is kept.

Condensing condensed code once more condenses the code that was there first, so what holds of one sweep
holds of all sweeps together. The sweeps end where nothing is left to remove. That is a fixed point:
optimizing the result finds nothing to do.
-/

import Mathlib.Data.List.Chain
import Shanty.Proofs.Code.Peephole

namespace Shanty.Code

@[simp]
theorem Quad.labels_addLabels (quad : Quad) (labels : List Label) :
    (quad.addLabels labels).labels = quad.labels ++ labels := rfl

@[simp]
theorem Quad.instr_addLabels (quad : Quad) (labels : List Label) :
    (quad.addLabels labels).instr = quad.instr := rfl

@[simp]
theorem Quad.addLabels_addLabels (quad : Quad) (first second : List Label) :
    (quad.addLabels first).addLabels second = quad.addLabels (first ++ second) := by
  simp [Quad.addLabels]

/-- An instruction that optimizing may remove: one that does nothing or a jump. -/
def Instr.Removable (instr : Instr) : Prop :=
  instr.isNop = true ∨ instr.jumpTarget?.isSome = true

namespace Peephole

theorem Harmless.removable {removes : Quad → Quad → Bool} (harmless : Harmless removes)
    {quad next : Quad} (hremoves : removes quad next = true) : quad.instr.Removable := by
  rcases harmless quad next hremoves with hnop | ⟨label, hlabel, _⟩
  · exact .inl (by rw [hnop]; rfl)
  · exact .inr (by rw [hlabel]; rfl)

/-! ## Stretches -/

/-- A stretch of code: quads that go and the quad behind them, which stays. -/
structure Stretch where
  gone : List Quad
  kept : Quad

namespace Stretch

/-- The quads of a stretch. -/
def quads (stretch : Stretch) : List Quad := stretch.gone ++ [stretch.kept]

/-- What stays of a stretch: its last quad, with the labels of the quads in front of it behind its own,
those of the nearest quad first. -/
def remainder (stretch : Stretch) : Quad :=
  stretch.kept.addLabels (labelsOf stretch.gone.reverse)

/-- Only quads that do nothing and jumps go. -/
def Removable (stretch : Stretch) : Prop := ∀ quad ∈ stretch.gone, quad.instr.Removable

/-- The stretch with one more quad that goes, in front of the others. -/
def cons (quad : Quad) (stretch : Stretch) : Stretch :=
  { stretch with gone := quad :: stretch.gone }

/-- The stretch with other stretches in front of it, of which nothing stays any more. -/
def absorb (others : List Stretch) (stretch : Stretch) : Stretch :=
  { stretch with gone := others.flatMap (·.quads) ++ stretch.gone }

@[simp]
theorem quads_cons (quad : Quad) (stretch : Stretch) :
    (stretch.cons quad).quads = quad :: stretch.quads := rfl

@[simp]
theorem remainder_cons (quad : Quad) (stretch : Stretch) :
    (stretch.cons quad).remainder = stretch.remainder.addLabels quad.labels := by
  simp [remainder, cons]

@[simp]
theorem instr_remainder (stretch : Stretch) : stretch.remainder.instr = stretch.kept.instr := rfl

/-- What stays has the labels of all quads of the stretch, from the last one to the first. -/
theorem labels_remainder (stretch : Stretch) :
    stretch.remainder.labels = labelsOf stretch.quads.reverse := by
  simp [remainder, quads]

@[simp]
theorem quads_absorb (others : List Stretch) (stretch : Stretch) :
    (stretch.absorb others).quads = others.flatMap (·.quads) ++ stretch.quads := by
  simp [quads, absorb]

/-- Of each stretch one quad stays. -/
theorem length_flatMap_quads (stretches : List Stretch) :
    (stretches.flatMap (·.quads)).length =
      (stretches.flatMap (·.gone)).length + stretches.length := by
  induction stretches with
  | nil => rfl
  | cons stretch stretches ih =>
      rw [List.flatMap_cons, List.length_append, ih, quads, List.flatMap_cons]
      simp only [List.length_append, List.length_cons, List.length_nil]
      omega

/-- What stays of several stretches has their labels. -/
theorem labelsOf_remainders (stretches : List Stretch) :
    labelsOf (stretches.map (·.remainder)).reverse =
      labelsOf (stretches.flatMap (·.quads)).reverse := by
  induction stretches with
  | nil => rfl
  | cons stretch stretches ih => simp [ih, labels_remainder]

/-- Absorbing stretches is removing what stays of them. -/
theorem remainder_absorb (others : List Stretch) (stretch : Stretch) :
    (stretch.absorb others).remainder =
      stretch.remainder.addLabels (labelsOf (others.map (·.remainder)).reverse) := by
  rw [labelsOf_remainders, remainder, remainder, Quad.addLabels_addLabels, absorb,
    List.reverse_append, labelsOf_append]

end Stretch

/-! ## Condensed code -/

/-- Some stretches tell how code has been condensed: they make up the code as it was, what stays of
them makes up the code as it is, and nothing else has gone than quads that do nothing and jumps. -/
structure Condenses (stretches : List Stretch) (before after : List Quad) : Prop where
  before_eq : before = stretches.flatMap (·.quads)
  after_eq : after = stretches.map (·.remainder)
  removable : ∀ stretch ∈ stretches, stretch.Removable

/-- Code of which everything stays. -/
theorem condenses_self (quads : List Quad) : Condenses (quads.map (Stretch.mk [])) quads quads where
  before_eq := by
    induction quads with
    | nil => rfl
    | cons quad quads ih => exact congrArg (quad :: ·) ih
  after_eq := by simp [Function.comp_def, Stretch.remainder]
  removable := by simp [Stretch.Removable]

/-- Code in front of which a stretch is condensed. -/
theorem Condenses.cons {stretches : List Stretch} {before after : List Quad} {stretch : Stretch}
    (hstretch : stretch.Removable) (hcondenses : Condenses stretches before after) :
    Condenses (stretch :: stretches) (stretch.quads ++ before) (stretch.remainder :: after) where
  before_eq := by rw [hcondenses.before_eq, List.flatMap_cons]
  after_eq := by rw [hcondenses.after_eq, List.map_cons]
  removable := List.forall_mem_cons.2 ⟨hstretch, hcondenses.removable⟩

/-- Condensing condensed code condenses the code that was there first. -/
theorem Condenses.trans {first second : List Stretch} {before middle after : List Quad}
    (hfirst : Condenses first before middle) (hsecond : Condenses second middle after) :
    ∃ stretches, Condenses stretches before after := by
  induction second generalizing first before middle after with
  | nil =>
      obtain rfl : middle = [] := hsecond.before_eq
      obtain rfl : first = [] := List.map_eq_nil_iff.1 hfirst.after_eq.symm
      exact ⟨[], hfirst.before_eq, hsecond.after_eq, by simp⟩
  | cons stretch second ih =>
      -- What the stretch consists of has come from stretches of the code that was there first.
      obtain ⟨hbefore, hremove⟩ := And.intro hsecond.before_eq hsecond.removable
      rw [List.forall_mem_cons] at hremove
      rw [hfirst.after_eq, List.flatMap_cons, Stretch.quads, List.append_assoc,
        List.map_eq_append_iff] at hbefore
      obtain ⟨others, more, rfl, hothers, hmore⟩ := hbefore
      obtain ⟨last, rest, rfl, hlast, hrest⟩ := List.map_eq_cons_iff.1 hmore
      have hparts := hfirst.removable
      rw [List.forall_mem_append, List.forall_mem_cons] at hparts
      have hremaining : Condenses rest (rest.flatMap Stretch.quads) (rest.map Stretch.remainder) :=
        ⟨rfl, rfl, hparts.2.2⟩
      obtain ⟨stretches, hstretches⟩ := ih hremaining ⟨hrest, rfl, hremove.2⟩
      refine ⟨last.absorb others :: stretches, ?_, ?_, ?_⟩
      · rw [hfirst.before_eq, List.flatMap_append, List.flatMap_cons, hstretches.before_eq,
          List.flatMap_cons, Stretch.quads_absorb, List.append_assoc]
      · rw [hsecond.after_eq, List.map_cons, hstretches.after_eq, List.map_cons,
          Stretch.remainder_absorb, hothers, hlast]
        rfl
      · refine List.forall_mem_cons.2 ⟨?_, hstretches.removable⟩
        intro quad hquad
        rcases List.mem_append.1 hquad with hquad | hquad
        · -- A quad of another stretch was removed by one of the two.
          obtain ⟨other, hother, hquad⟩ := List.mem_flatMap.1 hquad
          rcases List.mem_append.1 hquad with hquad | hquad
          · exact hparts.1 other hother quad hquad
          · obtain rfl := List.mem_singleton.1 hquad
            have hgone : other.remainder ∈ stretch.gone :=
              hothers ▸ List.mem_map_of_mem (f := (·.remainder)) hother
            exact hremove.1 other.remainder hgone
        · exact hparts.2.1 quad hquad

/-! ## Sweeps -/

/-- A sweep condenses. What is carried goes to the first quad that stays. -/
theorem exists_condenses_sweep {removes : Quad → Quad → Bool} (harmless : Harmless removes)
    (carried : List Label) (quads : List Quad) :
    ∃ stretches after, Condenses stretches quads after ∧
      sweep removes carried quads = after.modifyHead (·.addLabels carried) := by
  fun_induction sweep removes carried quads with
  | case1 => exact ⟨[], [], ⟨rfl, rfl, by simp⟩, rfl⟩
  | case2 carried last => exact ⟨_, [last], condenses_self [last], rfl⟩
  | case3 carried quad next rest hremoves ih =>
      obtain ⟨stretches, after, hcondenses, hsweep⟩ := ih
      cases stretches with
      | nil => cases hcondenses.before_eq
      | cons stretch stretches =>
          obtain ⟨hbefore, hafter, hremovable⟩ := hcondenses
          rw [List.forall_mem_cons] at hremovable
          refine ⟨stretch.cons quad :: stretches, _, ⟨?_, rfl, ?_⟩, ?_⟩
          · rw [hbefore]
            rfl
          · exact List.forall_mem_cons.2
              ⟨List.forall_mem_cons.2 ⟨harmless.removable hremoves, hremovable.1⟩, hremovable.2⟩
          · rw [hsweep, hafter]
            simp
  | case4 carried quad next rest _ ih =>
      obtain ⟨stretches, after, hcondenses, hsweep⟩ := ih
      have halone : (⟨[], quad⟩ : Stretch).Removable := by simp [Stretch.Removable]
      refine ⟨_, _, hcondenses.cons halone, ?_⟩
      rw [hsweep]
      cases after <;> simp [Stretch.remainder]

theorem exists_condenses_sweep_nil {removes : Quad → Quad → Bool} (harmless : Harmless removes)
    (quads : List Quad) : ∃ stretches, Condenses stretches quads (sweep removes [] quads) := by
  obtain ⟨stretches, after, hcondenses, hsweep⟩ := exists_condenses_sweep harmless [] quads
  have hsame : sweep removes [] quads = after := by
    rw [hsweep]
    cases after <;> simp
  exact ⟨stretches, hsame ▸ hcondenses⟩

theorem exists_condenses_removeJumps (quads : List Quad) :
    ∃ stretches, Condenses stretches quads (removeJumps quads) := by
  fun_induction removeJumps quads with
  | case1 quads swept _ ih =>
      obtain ⟨first, hfirst⟩ := exists_condenses_sweep_nil harmless_isVainJump quads
      obtain ⟨second, hsecond⟩ := ih
      exact hfirst.trans hsecond
  | case2 quads => exact ⟨_, condenses_self quads⟩

/-- Removing all quads without effect condenses. -/
theorem exists_condenses_tidy (quads : List Quad) :
    ∃ stretches, Condenses stretches quads (tidy quads) := by
  obtain ⟨first, hfirst⟩ := exists_condenses_sweep_nil harmless_isIdle quads
  obtain ⟨second, hsecond⟩ := exists_condenses_removeJumps (sweep isIdle [] quads)
  exact hfirst.trans hsecond

/-! ## Fixed points -/

/-- A sweep that finds nothing to remove changes nothing. -/
theorem sweep_eq_self_of_isChain {removes : Quad → Quad → Bool} {quads : List Quad}
    (hchain : quads.IsChain fun quad next => removes quad next = false) :
    sweep removes [] quads = quads := by
  induction hchain with
  | nil => rfl
  | singleton quad => exact congrArg ([·]) quad.addLabels_nil
  | cons_cons hstays _ ih => rw [sweep, if_neg (by simp [hstays]), ih, Quad.addLabels_nil]

/-- A sweep that changes nothing finds nothing to remove. -/
theorem isChain_of_length_sweep {removes : Quad → Quad → Bool} (carried : List Label)
    (quads : List Quad) (hlength : quads.length ≤ (sweep removes carried quads).length) :
    quads.IsChain fun quad next => removes quad next = false := by
  fun_induction sweep removes carried quads with
  | case1 => exact .nil
  | case2 carried last => exact .singleton last
  | case3 carried quad next rest _ ih =>
      have hshort := length_sweep_le removes (quad.labels ++ carried) (next :: rest)
      simp only [List.length_cons] at hlength hshort
      omega
  | case4 carried quad next rest hstays ih =>
      simp only [List.length_cons] at hlength ih
      exact .cons_cons (by simpa using hstays) (ih (by omega))

/-- Once the jumps are swept no jump leads to the quad behind it. -/
theorem isChain_removeJumps (quads : List Quad) :
    (removeJumps quads).IsChain fun quad next => isVainJump quad next = false := by
  fun_induction removeJumps quads with
  | case1 quads swept _ ih => exact ih
  | case2 quads swept hshorter => exact isChain_of_length_sweep [] quads (Nat.not_lt.1 hshorter)

theorem removeJumps_of_isChain {quads : List Quad}
    (hchain : quads.IsChain fun quad next => isVainJump quad next = false) :
    removeJumps quads = quads := by
  rw [removeJumps, sweep_eq_self_of_isChain hchain, if_neg (Nat.lt_irrefl _)]

/-- Once the idle quads are swept only the last quad can do nothing. -/
theorem isChain_sweep_isIdle (carried : List Label) (quads : List Quad) :
    (sweep isIdle carried quads).IsChain fun quad next => isIdle quad next = false := by
  fun_induction sweep isIdle carried quads with
  | case1 => exact .nil
  | case2 => exact .singleton _
  | case3 carried quad next rest _ ih => exact ih
  | case4 carried quad next rest hstays ih =>
      cases hrest : sweep isIdle [] (next :: rest) with
      | nil => exact .singleton _
      | cons kept more =>
          rw [hrest] at ih
          exact .cons_cons (by simpa [isIdle] using hstays) ih

/-- What code is condensed to does nothing more often than the code did. -/
theorem Condenses.isChain_isIdle {stretches : List Stretch} {before after : List Quad}
    (hcondenses : Condenses stretches before after)
    (hchain : before.IsChain fun quad next => isIdle quad next = false) :
    after.IsChain fun quad next => isIdle quad next = false := by
  obtain ⟨rfl, rfl, hremovable⟩ := hcondenses
  clear hremovable
  induction stretches with
  | nil => exact .nil
  | cons stretch stretches ih =>
      rw [List.flatMap_cons, Stretch.quads, List.append_assoc] at hchain
      have hrest := hchain.right_of_append
      cases stretches with
      | nil => exact .singleton _
      | cons next stretches =>
          refine .cons_cons ?_ (ih hrest.tail)
          cases hquads : (next :: stretches).flatMap (·.quads) with
          | nil => simp [Stretch.quads] at hquads
          | cons quad quads =>
              rw [hquads] at hrest
              exact (List.isChain_cons_cons.1 hrest).1

/-- In tidy code nothing is left to remove. -/
theorem isChain_tidy (quads : List Quad) :
    ((tidy quads).IsChain fun quad next => isIdle quad next = false) ∧
      (tidy quads).IsChain fun quad next => isVainJump quad next = false := by
  obtain ⟨stretches, hcondenses⟩ := exists_condenses_removeJumps (sweep isIdle [] quads)
  exact ⟨hcondenses.isChain_isIdle (isChain_sweep_isIdle [] quads), isChain_removeJumps _⟩

/-- Tidy code is left as it is. -/
theorem tidy_tidy (quads : List Quad) : tidy (tidy quads) = tidy quads := by
  obtain ⟨hidle, hvain⟩ := isChain_tidy quads
  rw [tidy, sweep_eq_self_of_isChain hidle, removeJumps_of_isChain hvain]

end Peephole

/-! ## Procedures and programs -/

open Peephole (Stretch)

/-- What optimizing makes of a procedure, given the stretches of its code. The code is condensed by
these stretches, and nothing but code changes: not the storage, not the label that returns jump to, not
what the last quad does. In the end no quad in the body does nothing, and no jump stands in front of a
quad with the label that it jumps to. -/
structure Procedure.CondensedTo (procedure : Procedure) (stretches : List Stretch)
    (after : Procedure) : Prop where
  code : Peephole.Condenses stretches procedure.tail after.tail
  others : { after with body := procedure.body, exitLabels := procedure.exitLabels } = procedure
  busy : ∀ quad ∈ after.body, quad.instr.isNop = false
  jumps : after.tail.IsChain fun quad next =>
    ∀ label, quad.instr.jumpTarget? = some label → label ∉ next.labels

namespace Procedure

/-- The code of an optimized procedure is the tidied code of the procedure. -/
theorem tail_optimize (procedure : Procedure) :
    procedure.optimize.tail = Peephole.tidy procedure.tail := by
  have hends : ∀ count, procedure.EndsIn ((Peephole.sweep Peephole.isVainJump [])^[count]
      (Peephole.sweep Peephole.isIdle [] procedure.tail)) := by
    intro count
    induction count with
    | zero => exact procedure.endsIn_tail.sweep Peephole.isIdle
    | succ count ih =>
        rw [Function.iterate_succ_apply']
        exact ih.sweep Peephole.isVainJump
  have hlast := hends (Peephole.sweep Peephole.isIdle [] procedure.tail).length
  rw [Peephole.iterate_sweep_eq_removeJumps _ _ le_rfl] at hlast
  exact tail_withTail hlast

/-- What is last in a procedure stands behind each quad of its body. -/
theorem isNop_of_isChain {procedure : Procedure}
    (hchain : procedure.tail.IsChain fun quad next => Peephole.isIdle quad next = false) :
    ∀ quad ∈ procedure.body, quad.instr.isNop = false := by
  intro quad hquad
  obtain ⟨front, back, hbody⟩ := List.append_of_mem hquad
  rw [tail, hbody, List.append_assoc, List.cons_append] at hchain
  cases back with
  | nil => exact (List.isChain_cons_cons.1 hchain.right_of_append).1
  | cons next back => exact (List.isChain_cons_cons.1 hchain.right_of_append).1

theorem exists_condensedTo (procedure : Procedure) :
    ∃ stretches, procedure.CondensedTo stretches procedure.optimize := by
  obtain ⟨stretches, hcondenses⟩ := Peephole.exists_condenses_tidy procedure.tail
  obtain ⟨hidle, hvain⟩ := Peephole.isChain_tidy procedure.tail
  rw [← tail_optimize] at hcondenses hidle hvain
  refine ⟨stretches, hcondenses, rfl, isNop_of_isChain hidle, hvain.imp ?_⟩
  intro quad next hstays label htarget hlabel
  simp [Peephole.isVainJump, htarget, Quad.hasLabel, hlabel] at hstays

/-- Of each stretch one quad stays, so the body has got shorter by those that went. -/
theorem CondensedTo.length_body {procedure after : Procedure} {stretches : List Stretch}
    (hcondensed : procedure.CondensedTo stretches after) :
    procedure.body.length = after.body.length + (stretches.flatMap (·.gone)).length := by
  have hbefore := congrArg List.length hcondensed.code.before_eq
  have hafter := congrArg List.length hcondensed.code.after_eq
  have hsum := Stretch.length_flatMap_quads stretches
  simp only [tail, List.length_append, List.length_singleton, List.length_map] at hbefore hafter
  omega

theorem optimize_optimize (procedure : Procedure) :
    procedure.optimize.optimize = procedure.optimize := by
  have htail := procedure.optimize.tail_optimize
  rw [tail_optimize procedure, Peephole.tidy_tidy] at htail
  -- The code of a procedure tells its body and the labels at its end.
  have hparts := List.append_inj' (htail.trans procedure.tail_optimize.symm) rfl
  have hlabels := congrArg Quad.labels (List.singleton_inj.1 hparts.2)
  have hoptimize : ∀ procedure : Procedure, procedure.optimize = { procedure with
      body := procedure.optimize.body, exitLabels := procedure.optimize.exitLabels } := fun _ => rfl
  rw [hoptimize procedure.optimize, hparts.1, show procedure.optimize.optimize.exitLabels =
    procedure.optimize.exitLabels from hlabels]

end Procedure

/-- The number of quads that optimizing removes, given the stretches of each procedure. -/
theorem Program.removable_eq {program : Program} {stretches : Procedure → List Stretch}
    (hcondensed : ∀ procedure ∈ program.procedures,
      procedure.CondensedTo (stretches procedure) procedure.optimize) :
    program.removable = (program.procedures.flatMap fun procedure =>
      (stretches procedure).flatMap (·.gone)).length := by
  have hsize : program.bodySize = program.optimize.bodySize +
      (program.procedures.flatMap fun procedure =>
        (stretches procedure).flatMap (·.gone)).length := by
    simp only [bodySize, optimize]
    generalize program.procedures = procedures at hcondensed
    induction procedures with
    | nil => rfl
    | cons procedure procedures ih =>
        rw [List.forall_mem_cons] at hcondensed
        rw [List.map_cons, List.foldr_cons, List.foldr_cons, List.flatMap_cons, List.length_append,
          ih hcondensed.2, hcondensed.1.length_body]
        omega
  rw [removable, hsize]
  omega

theorem Program.optimize_optimize (program : Program) :
    program.optimize.optimize = program.optimize := by
  simp only [optimize, List.map_map]
  congr 1
  exact List.map_congr_left fun procedure _ => procedure.optimize_optimize

/-- Optimizing condenses each procedure of a program and changes nothing else: of each stretch of code
only the last quad stays, it takes over the labels, and no more than that can go. The number of quads
that optimizing removes is the number of those that went. Optimizing once more removes none and
changes nothing; and sweeping for jumps comes to an end, with no more sweeps than the program has
quads and one. -/
theorem optimize_condenses (program : Program) :
    (∃ stretches : Procedure → List Stretch,
      (∀ procedure ∈ program.procedures,
        procedure.CondensedTo (stretches procedure) procedure.optimize) ∧
      program.optimize = { program with procedures := program.procedures.map (·.optimize) } ∧
      program.removable = (program.procedures.flatMap fun procedure =>
        (stretches procedure).flatMap (·.gone)).length) ∧
    program.optimize.removable = 0 ∧ program.optimize.optimize = program.optimize ∧
    ∀ count, program.bodySize < count →
      (Program.sweep Peephole.isVainJump)^[count] (program.sweep Peephole.isIdle) =
        program.optimize := by
  obtain ⟨stretches, hstretches⟩ := Classical.axiomOfChoice Procedure.exists_condensedTo
  have hcondensed : ∀ procedure ∈ program.procedures,
      procedure.CondensedTo (stretches procedure) procedure.optimize :=
    fun procedure _ => hstretches procedure
  refine ⟨⟨stretches, hcondensed, rfl, Program.removable_eq hcondensed⟩, ?_,
    program.optimize_optimize, fun count hcount => Program.iterate_sweep_eq_optimize hcount⟩
  rw [Program.removable, program.optimize_optimize, Nat.sub_self]

/-- The countdown loses both landings of its loop and the jump to its end, and each label moves on to
the quad behind. -/
example : countdown.optimize.tail.map (·.labels) =
    [[.numbered 1], [], [], [], [.numbered 0, .numbered 2]] := by decide +kernel

end Shanty.Code
