/-
# Removing quads without effect keeps the meaning

Optimizing a program sweeps the quads of each procedure: first the idle ones, then
the jumps that lead to the next quad, and these again until none is left. All
procedures can be thought of as being swept together, since a sweep that finds
nothing to remove changes nothing. So it is enough that one sweep of a whole program
keeps the meaning.

While a program and a swept copy of it run side by side, what lies in front of an
activation in the copy is the sweep of what lies in front of it in the original, with
some labels carried over from what the original has behind it. If the original comes
to a quad that was removed, it moves on alone, to the next quad in any case, because
no other quad has the label that a removed jump leads to. All other quads are taken
by both, and a jump lands in the copy where the labels of its target were carried to.

For this the labels of a procedure have to be distinct, and no jump may lead out of
its procedure or to its entry.
-/

import Mathlib.Data.List.Infix
import Mathlib.Data.List.Nodup
import Mathlib.Logic.Function.Iterate
import Shanty.Code.Peephole
import Shanty.Proofs.Code.Trace

namespace Shanty.Code

namespace Procedure

/-- The quads behind the first one, the last one included. -/
def tail (procedure : Procedure) : List Quad := procedure.body ++ [procedure.leaveQuad]

/-- The labels of a procedure are distinct, and its jumps lead to its body or to its
last quad. -/
structure WellLabelled (procedure : Procedure) : Prop where
  distinct : (labelsOf procedure.quads).Nodup
  targets : ∀ quad ∈ procedure.quads, ∀ label, quad.instr.jumpTarget? = some label →
    label ∈ labelsOf procedure.tail

end Procedure

/-- All labels of a program are distinct, and each jump leads to a label in the body or at
the end of its own procedure. -/
structure Program.WellLabelled (program : Program) : Prop where
  distinct : (program.procedures.flatMap fun procedure => labelsOf procedure.quads).Nodup
  targets : ∀ procedure ∈ program.procedures, ∀ quad ∈ procedure.quads, ∀ label,
    quad.instr.jumpTarget? = some label →
      ∃ landing ∈ procedure.body ++ [procedure.leaveQuad], label ∈ landing.labels

theorem Program.WellLabelled.procedure {program : Program} (labelled : program.WellLabelled)
    {procedure : Procedure} (hmem : procedure ∈ program.procedures) :
    procedure.WellLabelled where
  distinct := (List.nodup_flatMap.1 labelled.distinct).1 procedure hmem
  targets quad hquad label hlabel :=
    List.mem_flatMap.2 (labelled.targets procedure hmem quad hquad label hlabel)

namespace Peephole

/-- A test that only lets quads go which do nothing in front of the next one. -/
def Harmless (removes : Quad → Quad → Bool) : Prop :=
  ∀ quad next, removes quad next = true →
    quad.instr = .nop ∨ ∃ label, quad.instr.jumpTarget? = some label ∧ label ∈ next.labels

theorem harmless_isIdle : Harmless isIdle := by
  intro quad next hremoves
  left
  cases hinstr : quad.instr <;> simp [isIdle, Instr.isNop, hinstr] at hremoves ⊢

theorem harmless_isVainJump : Harmless isVainJump := by
  intro quad next hremoves
  right
  unfold isVainJump at hremoves
  split at hremoves
  · next label hlabel => exact ⟨label, hlabel, by simpa [Quad.hasLabel] using hremoves⟩
  · cases hremoves

/-- A quad that a harmless test lets go is invisible. -/
theorem Harmless.not_isVisible {removes : Quad → Quad → Bool} (harmless : Harmless removes)
    {quad next : Quad} (hremoves : removes quad next = true) :
    quad.instr.isVisible = false := by
  rcases harmless quad next hremoves with hnop | ⟨label, hlabel, _⟩
  · rw [hnop]; rfl
  · cases hinstr : quad.instr <;> simp [hinstr, Instr.jumpTarget?, Instr.isVisible] at hlabel ⊢

section Sweep

variable (removes : Quad → Quad → Bool)

@[simp]
theorem sweep_eq_nil_iff {carried : List Label} {quads : List Quad} :
    sweep removes carried quads = [] ↔ quads = [] := by
  fun_induction sweep removes carried quads <;> simp_all

/-- A sweep loses no label and adds none. -/
theorem labelsOf_sweep_perm (carried : List Label) (quads : List Quad) (hne : quads ≠ []) :
    (labelsOf (sweep removes carried quads)).Perm (carried ++ labelsOf quads) := by
  fun_induction sweep removes carried quads with
  | case1 => exact absurd rfl hne
  | case2 carried last =>
      simp only [labelsOf, Quad.addLabels, List.flatMap_cons, List.flatMap_nil,
        List.append_nil]
      exact List.perm_append_comm
  | case3 carried quad next rest _ ih =>
      refine (ih (by simp)).trans ?_
      simp only [labelsOf, List.flatMap_cons, ← List.append_assoc]
      exact (List.perm_append_comm.append_right _).append_right _
  | case4 carried quad next rest _ ih =>
      have hrest := ih (by simp)
      simp only [labelsOf, List.flatMap_cons, Quad.addLabels, List.nil_append] at hrest ⊢
      have hfront : (quad.labels ++ carried).Perm (carried ++ quad.labels) :=
        List.perm_append_comm
      rw [← List.append_assoc]
      exact (hfront.append_right _).trans (hrest.append_left _)

/-- A sweep either removes the first quad, which has another one behind it, or keeps it. -/
theorem sweep_cons (carried : List Label) (quad : Quad) (more : List Quad) :
    (∃ next rest, more = next :: rest ∧ removes quad next = true ∧
      sweep removes carried (quad :: more) = sweep removes (quad.labels ++ carried) more) ∨
    sweep removes carried (quad :: more) =
      quad.addLabels carried :: sweep removes [] more := by
  cases more with
  | nil => exact .inr rfl
  | cons next rest =>
      by_cases hremoves : removes quad next = true
      · exact .inl ⟨next, rest, rfl, hremoves, by rw [sweep, if_pos hremoves]⟩
      · exact .inr (by rw [sweep, if_neg hremoves])

/-- The first quad of a sweep has all labels that were carried. -/
theorem seek_sweep_of_mem_carried {label : Label} {carried : List Label} {quads : List Quad}
    (hmem : label ∈ carried) :
    seek label (sweep removes carried quads) = sweep removes carried quads := by
  fun_induction sweep removes carried quads with
  | case1 => rfl
  | case2 carried last => exact seek_cons_of_mem (List.mem_append_right _ hmem)
  | case3 carried quad next rest _ ih => exact ih (List.mem_append_right _ hmem)
  | case4 carried quad next rest _ ih => exact seek_cons_of_mem (List.mem_append_right _ hmem)

/-- Where a label is found after a sweep is the sweep of where it was found before. -/
theorem seek_sweep {label : Label} {carried : List Label} {quads : List Quad}
    (hmem : label ∈ labelsOf quads) (hnot : label ∉ carried) :
    ∃ carried', seek label (sweep removes carried quads) =
      sweep removes carried' (seek label quads) := by
  fun_induction sweep removes carried quads with
  | case1 => simp [labelsOf] at hmem
  | case2 carried last =>
      have hlast : label ∈ last.labels := by simpa [labelsOf] using hmem
      refine ⟨carried, ?_⟩
      rw [seek_cons_of_mem hlast, seek_cons_of_mem (List.mem_append_left _ hlast), sweep]
  | case3 carried quad next rest hremoves ih =>
      by_cases hquad : label ∈ quad.labels
      · refine ⟨carried, ?_⟩
        rw [seek_cons_of_mem hquad, sweep, if_pos hremoves]
        exact seek_sweep_of_mem_carried removes (List.mem_append_left _ hquad)
      · rw [seek_cons_of_not_mem hquad]
        refine ih ?_ ?_
        · simpa [labelsOf, hquad] using hmem
        · simp [hquad, hnot]
  | case4 carried quad next rest hremoves ih =>
      by_cases hquad : label ∈ quad.labels
      · refine ⟨carried, ?_⟩
        rw [seek_cons_of_mem hquad, sweep, if_neg hremoves]
        exact seek_cons_of_mem (List.mem_append_left _ hquad)
      · have hkept : label ∉ (quad.addLabels carried).labels := by
          simp [Quad.addLabels, hquad, hnot]
        rw [seek_cons_of_not_mem hquad, seek_cons_of_not_mem hkept]
        exact ih (by simpa [labelsOf, hquad] using hmem) (by simp)

/-- The quads of a sweep stem from quads before it. -/
theorem exists_instr_of_mem_sweep {carried : List Label} {quads : List Quad} {quad : Quad}
    (hmem : quad ∈ sweep removes carried quads) : ∃ origin ∈ quads, origin.instr = quad.instr := by
  fun_induction sweep removes carried quads with
  | case1 => cases hmem
  | case2 carried last =>
      obtain rfl := List.mem_singleton.1 hmem
      exact ⟨last, List.mem_singleton_self _, rfl⟩
  | case3 carried first next rest _ ih =>
      obtain ⟨origin, horigin, hinstr⟩ := ih hmem
      exact ⟨origin, List.mem_cons_of_mem _ horigin, hinstr⟩
  | case4 carried first next rest _ ih =>
      rcases List.mem_cons.1 hmem with rfl | hrest
      · exact ⟨first, List.mem_cons_self, rfl⟩
      · obtain ⟨origin, horigin, hinstr⟩ := ih hrest
        exact ⟨origin, List.mem_cons_of_mem _ horigin, hinstr⟩

/-- The last quad stays and gets at most new labels. -/
theorem exists_sweep_append_singleton (carried : List Label) (front : List Quad) (last : Quad) :
    ∃ front' carried', sweep removes carried (front ++ [last]) =
      front' ++ [last.addLabels carried'] := by
  induction front generalizing carried with
  | nil => exact ⟨[], carried, rfl⟩
  | cons quad front ih =>
      obtain ⟨next, rest, hnext⟩ : ∃ next rest, front ++ [last] = next :: rest := by
        cases front <;> simp
      by_cases hremoves : removes quad next = true
      · obtain ⟨front', carried', heq⟩ := ih (quad.labels ++ carried)
        refine ⟨front', carried', ?_⟩
        rw [List.cons_append, hnext, sweep, if_pos hremoves, ← hnext, heq]
      · obtain ⟨front', carried', heq⟩ := ih []
        refine ⟨quad.addLabels carried :: front', carried', ?_⟩
        rw [List.cons_append, hnext, sweep, if_neg hremoves, ← hnext, heq, List.cons_append]

end Sweep

/-- A sweep that leaves the number of quads alone leaves the quads alone. -/
theorem sweep_eq_self_of_length (removes : Quad → Quad → Bool) (carried : List Label)
    (quads : List Quad) (hlength : quads.length ≤ (sweep removes carried quads).length) :
    sweep removes carried quads = quads.modifyHead (·.addLabels carried) := by
  fun_induction sweep removes carried quads with
  | case1 => rfl
  | case2 => rfl
  | case3 carried quad next rest _ ih =>
      have hshort := length_sweep_le removes (quad.labels ++ carried) (next :: rest)
      simp only [List.length_cons] at hlength hshort
      omega
  | case4 carried quad next rest _ ih =>
      simp only [List.length_cons, Nat.add_le_add_iff_right] at hlength ih
      rw [ih hlength]
      simp

/-- Sweeping the jumps as often as there are quads is sweeping them until none is left. -/
theorem iterate_sweep_eq_removeJumps (quads : List Quad) :
    ∀ count, quads.length ≤ count →
      (sweep isVainJump [])^[count] quads = removeJumps quads := by
  fun_induction removeJumps quads with
  | case1 quads swept hshorter ih =>
      intro count hcount
      obtain ⟨less, rfl⟩ : ∃ less, count = less + 1 := ⟨count - 1, by omega⟩
      rw [Function.iterate_succ_apply]
      exact ih less (by omega)
  | case2 quads swept hsame =>
      intro count _
      have hfixed : sweep isVainJump [] quads = quads := by
        rw [sweep_eq_self_of_length isVainJump [] quads (Nat.not_lt.1 hsame)]
        cases quads <;> simp
      exact Function.iterate_fixed hfixed count

end Peephole

namespace Procedure

/-- The procedure with other quads behind the first one. -/
def withTail (procedure : Procedure) (quads : List Quad) : Procedure :=
  { procedure with
    body := quads.dropLast
    exitLabels := (quads.getLast?.map (·.labels)).getD procedure.exitLabels }

/-- Whether some quads end in the last quad of a procedure, apart from its labels. -/
def EndsIn (procedure : Procedure) (quads : List Quad) : Prop :=
  ∃ front labels, quads = front ++ [{ procedure.leaveQuad with labels }]

/-- The procedure after one sweep. -/
def sweep (removes : Quad → Quad → Bool) (procedure : Procedure) : Procedure :=
  procedure.withTail (Peephole.sweep removes [] procedure.tail)

theorem endsIn_tail (procedure : Procedure) : procedure.EndsIn procedure.tail :=
  ⟨procedure.body, procedure.exitLabels, rfl⟩

theorem EndsIn.sweep {procedure : Procedure} {quads : List Quad}
    (removes : Quad → Quad → Bool) (hends : procedure.EndsIn quads) :
    procedure.EndsIn (Peephole.sweep removes [] quads) := by
  obtain ⟨front, labels, rfl⟩ := hends
  obtain ⟨front', carried, heq⟩ := Peephole.exists_sweep_append_singleton removes [] front
    { procedure.leaveQuad with labels }
  exact ⟨front', labels ++ carried, heq⟩

theorem tail_withTail {procedure : Procedure} {quads : List Quad}
    (hends : procedure.EndsIn quads) : (procedure.withTail quads).tail = quads := by
  obtain ⟨front, labels, rfl⟩ := hends
  simp [withTail, tail, leaveQuad]

theorem withTail_withTail {procedure : Procedure} {first second : List Quad}
    (hends : procedure.EndsIn second) :
    (procedure.withTail first).withTail second = procedure.withTail second := by
  obtain ⟨front, labels, rfl⟩ := hends
  simp [withTail]

/-- Sweeping a procedure again and again sweeps its quads. -/
theorem iterate_sweep_withTail (removes : Quad → Quad → Bool) {procedure : Procedure}
    {quads : List Quad} (hends : procedure.EndsIn quads) (count : Nat) :
    (sweep removes)^[count] (procedure.withTail quads) =
      procedure.withTail ((Peephole.sweep removes [])^[count] quads) := by
  induction count generalizing quads with
  | zero => rfl
  | succ count ih =>
      rw [Function.iterate_succ_apply, Function.iterate_succ_apply, sweep,
        tail_withTail hends, withTail_withTail (hends.sweep removes)]
      exact ih (hends.sweep removes)

/-- Optimizing a procedure is sweeping it once for idle quads and then often enough for
vain jumps. -/
theorem iterate_sweep_eq_optimize {procedure : Procedure} {count : Nat}
    (hcount : procedure.tail.length ≤ count) :
    (sweep Peephole.isVainJump)^[count] (procedure.sweep Peephole.isIdle) = procedure.optimize := by
  have hends := procedure.endsIn_tail.sweep Peephole.isIdle
  have hshorter := Peephole.length_sweep_le Peephole.isIdle [] procedure.tail
  rw [sweep, iterate_sweep_withTail Peephole.isVainJump hends,
    Peephole.iterate_sweep_eq_removeJumps _ _ (hshorter.trans hcount)]
  rfl

/-- A sweep does not touch the quad at which a procedure is entered. -/
theorem quads_sweep {removes : Quad → Quad → Bool} (harmless : Peephole.Harmless removes)
    (procedure : Procedure) :
    (procedure.sweep removes).quads = Peephole.sweep removes [] procedure.quads := by
  have htail := tail_withTail (procedure.endsIn_tail.sweep removes)
  have hquads : (procedure.sweep removes).quads =
      procedure.enterQuad :: Peephole.sweep removes [] procedure.tail := by
    rw [← htail]; rfl
  obtain ⟨next, rest, hnext⟩ : ∃ next rest, procedure.tail = next :: rest := by
    cases hbody : procedure.body <;> simp [tail, hbody]
  have hstays : ¬ removes procedure.enterQuad next = true := by
    intro hremoves
    rcases harmless _ _ hremoves with hnop | ⟨label, hlabel, _⟩
    · cases hnop
    · cases hlabel
  rw [hquads, show procedure.quads = procedure.enterQuad :: procedure.tail from rfl, hnext,
    Peephole.sweep, if_neg hstays, Quad.addLabels_nil]

theorem labelsOf_tail_sweep_perm (removes : Quad → Quad → Bool) (procedure : Procedure) :
    (labelsOf (procedure.sweep removes).tail).Perm (labelsOf procedure.tail) := by
  rw [sweep, tail_withTail (procedure.endsIn_tail.sweep removes)]
  exact Peephole.labelsOf_sweep_perm removes [] _ (by simp [tail])

/-- A sweep keeps the labels of a procedure in order. -/
theorem WellLabelled.sweep {removes : Quad → Quad → Bool} (harmless : Peephole.Harmless removes)
    {procedure : Procedure} (labelled : procedure.WellLabelled) :
    (procedure.sweep removes).WellLabelled where
  distinct := by
    rw [quads_sweep harmless]
    exact (Peephole.labelsOf_sweep_perm removes [] procedure.quads (by simp [quads])).nodup_iff.2
      labelled.distinct
  targets quad hquad label hlabel := by
    rw [quads_sweep harmless] at hquad
    obtain ⟨origin, horigin, hinstr⟩ := Peephole.exists_instr_of_mem_sweep removes hquad
    rw [(procedure.labelsOf_tail_sweep_perm removes).mem_iff]
    exact labelled.targets origin horigin label (hinstr ▸ hlabel)

end Procedure

/-- The program with all its procedures swept once. -/
def Program.sweep (removes : Quad → Quad → Bool) (program : Program) : Program :=
  { program with procedures := program.procedures.map (·.sweep removes) }

/-- What an instruction does depends on the variables and strings of a program, not on
its procedures. -/
theorem Instr.effect_sweep (removes : Quad → Quad → Bool) (program : Program) (store : Store)
    (self : Activation) (instr : Instr) :
    instr.effect (program.sweep removes) store self = instr.effect program store self := by
  cases instr <;> rfl

theorem Instr.course_sweep (removes : Quad → Quad → Bool) (program : Program) (store : Store)
    (self : Activation) (instr : Instr) :
    instr.course (program.sweep removes) store self = instr.course program store self := by
  cases instr <;> rfl

theorem Program.procedure?_sweep (removes : Quad → Quad → Bool) (program : Program)
    (name : String) :
    (program.sweep removes).procedure? name =
      (program.procedure? name).map (·.sweep removes) := by
  simp [Program.procedure?, Program.sweep, List.find?_map, Function.comp_def, Procedure.sweep,
    Procedure.withTail]

theorem Instr.jumpTarget?_of_course {program : Program} {store : Store} {self : Activation}
    {instr : Instr} {label : Label} (hcourse : instr.course program store self = .jump label) :
    instr.jumpTarget? = some label := by
  cases instr <;> simp_all [Instr.course, Instr.jumpTarget?]
  split at hcourse <;> simp_all

/-- An activation of a procedure and one of its swept copy that have come equally far. -/
structure SweptFrame (removes : Quad → Quad → Bool) (program : Program)
    (frame frame' : Frame) : Prop where
  member : frame.procedure ∈ program.procedures
  procedure : frame'.procedure = frame.procedure.sweep removes
  activation : frame'.activation = frame.activation
  suffix : frame.rest <:+ frame.procedure.quads
  rest : ∃ carried, frame'.rest = Peephole.sweep removes carried frame.rest

/-- A machine and one that runs the swept program, at the same point. -/
structure SweptConfig (removes : Quad → Quad → Bool) (program : Program)
    (config config' : Config) : Prop where
  store : config'.store = config.store
  frames : List.Forall₂ (SweptFrame removes program) config.frames config'.frames

/-- The number of quads in front of the innermost activation. -/
def Config.ahead (config : Config) : Nat :=
  match config.frames with
  | [] => 0
  | frame :: _ => frame.rest.length

section Simulation

variable {removes : Quad → Quad → Bool} {program : Program}

/-- A quad that a harmless test lets go only leads to the next one. -/
theorem step_of_removed (harmless : Peephole.Harmless removes) {store : Store} {frame : Frame}
    {callers : List Frame} {quad next : Quad} {rest : List Quad}
    (labelled : frame.procedure.WellLabelled)
    (hsuffix : frame.rest <:+ frame.procedure.quads)
    (hrest : frame.rest = quad :: next :: rest) (hremoves : removes quad next = true) :
    step program ⟨store, frame :: callers⟩ =
      some ⟨store, { frame with rest := next :: rest } :: callers⟩ := by
  obtain ⟨front, hfront⟩ := hsuffix
  -- The label of the jump is nowhere before the next quad.
  have hseek : ∀ label ∈ next.labels,
      seek label frame.procedure.quads = next :: rest := by
    intro label hlabel
    have hdistinct := labelled.distinct
    rw [← hfront, hrest] at hdistinct ⊢
    rw [show front ++ quad :: next :: rest = (front ++ [quad]) ++ next :: rest by simp]
      at hdistinct ⊢
    refine seek_append_cons (fun hmem => ?_) hlabel
    rw [labelsOf, List.flatMap_append, List.nodup_append] at hdistinct
    exact hdistinct.2.2 label hmem label
      (List.mem_flatMap.2 ⟨next, List.mem_cons_self, hlabel⟩) rfl
  unfold step
  simp only [hrest]
  rcases harmless quad next hremoves with hnop | ⟨label, htarget, hlabel⟩
  · rw [hnop]; rfl
  · cases hinstr : quad.instr with
    | goto target =>
        obtain rfl : target = label := by simpa [hinstr, Instr.jumpTarget?] using htarget
        simp [Instr.effect, Instr.course, proceed, hseek target hlabel]
    | ifZero condition target =>
        obtain rfl : target = label := by simpa [hinstr, Instr.jumpTarget?] using htarget
        simp only [Instr.effect, Instr.course, Option.bind_eq_bind, Option.bind_some]
        split <;> simp [proceed, hseek target hlabel]
    | _ => simp [hinstr, Instr.jumpTarget?] at htarget

/-- From the same point both machines go on to the same point. -/
theorem proceed_rel (harmless : Peephole.Harmless removes)
    {store : Store} {frame frame' : Frame} {callers callers' : List Frame}
    (hframe : SweptFrame removes program frame frame')
    (hcallers : List.Forall₂ (SweptFrame removes program) callers callers') (course : Course)
    (htarget : ∀ label, course = .jump label → label ∈ labelsOf frame.procedure.quads) :
    Option.Rel (SweptConfig removes program) (proceed program store frame callers course)
      (proceed (program.sweep removes) store frame' callers' course) := by
  cases course with
  | next => exact .some ⟨rfl, .cons hframe hcallers⟩
  | jump label =>
      have hmem := htarget label rfl
      obtain ⟨carried, hcarried⟩ := Peephole.seek_sweep removes hmem List.not_mem_nil
      simp only [proceed, hframe.procedure, Procedure.quads_sweep harmless, hcarried]
      obtain ⟨quad, rest, hseek⟩ := List.exists_cons_of_ne_nil (seek_ne_nil hmem)
      have hswept : Peephole.sweep removes carried (seek label frame.procedure.quads) ≠ [] := by
        simp [hseek]
      obtain ⟨quad', rest', hseek'⟩ := List.exists_cons_of_ne_nil hswept
      rw [hseek']
      simp only [hseek]
      exact .some ⟨rfl, .cons
        ⟨hframe.member, rfl, hframe.activation, hseek ▸ seek_suffix _ _,
          carried, by rw [← hseek, hseek']⟩ hcallers⟩
  | call callee =>
      simp only [proceed, Program.procedure?_sweep, Option.bind_eq_bind]
      cases hfind : program.procedure? callee with
      | none => exact .none
      | some procedure =>
          have hmember : procedure ∈ program.procedures := List.mem_of_find?_eq_some hfind
          refine .some ⟨rfl, .cons ?_ (.cons hframe hcallers)⟩
          exact ⟨hmember, rfl, rfl, List.suffix_refl _, [], Procedure.quads_sweep harmless _⟩
  | leave =>
      simp only [proceed, hframe.activation]
      exact .some ⟨rfl, hcallers⟩

/-- A program and its swept copy run side by side. -/
theorem rankedSimulation_sweep (harmless : Peephole.Harmless removes)
    (labelled : ∀ procedure ∈ program.procedures, procedure.WellLabelled) :
    RankedSimulation program (program.sweep removes) (SweptConfig removes program)
      Config.ahead where
  store hrelated := hrelated.store
  finished := by
    rintro ⟨store, frames⟩ ⟨store', frames'⟩ ⟨_, hframes⟩
    cases hframes <;> simp
  step := by
    rintro ⟨_, frames⟩ ⟨store, frames'⟩ ⟨rfl, hframes⟩
    cases hframes with
    | nil => exact .inr ⟨rfl, .none⟩
    | @cons frame frame' callers callers' hframe hcallers =>
        obtain ⟨carried, hcarried⟩ := hframe.rest
        cases hrest : frame.rest with
        | nil =>
            rw [hrest] at hcarried
            refine .inr ⟨?_, ?_⟩
            · simp [Config.visit, hrest, hcarried, Peephole.sweep]
            · simp only [step, hrest, hcarried, Peephole.sweep]
              exact .none
        | cons quad more =>
            have hmore : more <:+ frame.procedure.quads :=
              (List.suffix_cons quad more).trans (hrest ▸ hframe.suffix)
            rcases Peephole.sweep_cons removes carried quad more with
              ⟨next, rest, rfl, hremoves, hswept⟩ | hswept
            · -- The quad was removed: only the first machine moves.
              have hstep : step program ⟨store, frame :: callers⟩ =
                  some ⟨store, { frame with rest := next :: rest } :: callers⟩ :=
                step_of_removed harmless (labelled _ hframe.member) hframe.suffix hrest hremoves
              refine .inl ⟨_, hstep, ?_, ⟨rfl, .cons ?_ hcallers⟩, ?_⟩
              · simp [Config.visit, hrest, harmless.not_isVisible hremoves]
              · exact ⟨hframe.member, hframe.procedure, hframe.activation, hmore,
                  quad.labels ++ carried, by rw [hcarried, hrest, hswept]⟩
              · simp [Config.ahead, hrest]
            · -- The quad stays: both machines take it.
              rw [hrest, hswept] at hcarried
              refine .inr ⟨?_, ?_⟩
              · simp [Config.visit, hrest, hcarried, hframe.activation, Quad.addLabels]
              · simp only [step, hrest, hcarried, hframe.activation, Quad.addLabels,
                  Instr.effect_sweep, Instr.course_sweep, Option.bind_eq_bind]
                cases quad.instr.effect program store frame.activation with
                | none => exact .none
                | some result =>
                    have hmoved : SweptFrame removes program
                        ⟨frame.procedure, result.2, more⟩
                        ⟨frame'.procedure, result.2, Peephole.sweep removes [] more⟩ :=
                      ⟨hframe.member, hframe.procedure, rfl, hmore, [], rfl⟩
                    refine proceed_rel harmless hmoved hcallers _ ?_
                    intro label hcourse
                    have htail := (labelled _ hframe.member).targets quad
                      (hframe.suffix.mem (hrest ▸ List.mem_cons_self)) label
                      (Instr.jumpTarget?_of_course hcourse)
                    exact List.mem_append_right _ htail

end Simulation

/-- A machine that is about to run a procedure by itself. -/
def Procedure.start (procedure : Procedure) (store : Store) (activation : Activation) : Config :=
  ⟨store, [⟨procedure, activation, procedure.quads⟩]⟩

/-- One sweep of a whole program keeps what its procedures do. -/
theorem Program.sameRuns_sweep {removes : Quad → Quad → Bool}
    (harmless : Peephole.Harmless removes) {program : Program}
    (labelled : ∀ procedure ∈ program.procedures, procedure.WellLabelled)
    {procedure : Procedure} (hmem : procedure ∈ program.procedures) (store : Store)
    (activation : Activation) :
    SameRuns program (program.sweep removes) (procedure.start store activation)
      ((procedure.sweep removes).start store activation) := by
  refine (rankedSimulation_sweep harmless labelled).sameRuns ⟨rfl, .cons ?_ .nil⟩
  exact ⟨hmem, rfl, rfl, List.suffix_refl _, [], Procedure.quads_sweep harmless procedure⟩

theorem Program.wellLabelled_sweep {removes : Quad → Quad → Bool}
    (harmless : Peephole.Harmless removes) {program : Program}
    (labelled : ∀ procedure ∈ program.procedures, procedure.WellLabelled) :
    ∀ procedure ∈ (program.sweep removes).procedures, procedure.WellLabelled := by
  intro procedure hmem
  obtain ⟨origin, horigin, rfl⟩ := List.mem_map.1 hmem
  exact (labelled origin horigin).sweep harmless

/-- Any number of sweeps of a whole program keeps what its procedures do. -/
theorem Program.sameRuns_iterate_sweep {removes : Quad → Quad → Bool}
    (harmless : Peephole.Harmless removes) (count : Nat) {program : Program}
    (labelled : ∀ procedure ∈ program.procedures, procedure.WellLabelled)
    {procedure : Procedure} (hmem : procedure ∈ program.procedures) (store : Store)
    (activation : Activation) :
    SameRuns program ((Program.sweep removes)^[count] program)
      (procedure.start store activation)
      (((Procedure.sweep removes)^[count] procedure).start store activation) := by
  induction count generalizing program procedure with
  | zero => exact .refl _ _
  | succ count ih =>
      rw [Function.iterate_succ_apply, Function.iterate_succ_apply]
      exact (sameRuns_sweep harmless labelled hmem store activation).trans
        (ih (wellLabelled_sweep harmless labelled) (List.mem_map_of_mem hmem))

theorem Program.iterate_sweep (removes : Quad → Quad → Bool) (count : Nat) (program : Program) :
    (Program.sweep removes)^[count] program =
      { program with
        procedures := program.procedures.map (Procedure.sweep removes)^[count] } := by
  induction count generalizing program with
  | zero => simp
  | succ count ih =>
      rw [Function.iterate_succ_apply, ih]
      simp [Program.sweep, Function.comp_def]

/-- No procedure has more quads than the whole program, its last one apart. -/
theorem Program.length_tail_le {program : Program} {procedure : Procedure}
    (hmem : procedure ∈ program.procedures) : procedure.tail.length ≤ program.bodySize + 1 := by
  rw [Procedure.tail, List.length_append, List.length_singleton, Nat.add_le_add_iff_right, bodySize]
  generalize program.procedures = procedures at hmem ⊢
  induction procedures with
  | nil => cases hmem
  | cons first rest ih =>
      rw [List.foldr_cons]
      rcases List.mem_cons.1 hmem with rfl | hrest
      · exact Nat.le_add_right _ _
      · exact (ih hrest).trans (Nat.le_add_left _ _)

/-- Optimizing a program is sweeping it once for idle quads and then often enough for vain
jumps. More sweeps than the program has quads change nothing. -/
theorem Program.iterate_sweep_eq_optimize {program : Program} {count : Nat}
    (hcount : program.bodySize < count) :
    (Program.sweep Peephole.isVainJump)^[count] (program.sweep Peephole.isIdle) =
      program.optimize := by
  rw [Program.iterate_sweep, Program.optimize, Program.sweep, List.map_map]
  congr 1
  refine List.map_congr_left fun procedure hmem => ?_
  exact Procedure.iterate_sweep_eq_optimize ((length_tail_le hmem).trans hcount)

theorem Program.exists_iterate_eq_optimize (program : Program) :
    ∃ count, program.optimize =
        (Program.sweep Peephole.isVainJump)^[count] (program.sweep Peephole.isIdle) ∧
      ∀ procedure ∈ program.procedures, procedure.optimize =
        (Procedure.sweep Peephole.isVainJump)^[count] (procedure.sweep Peephole.isIdle) :=
  ⟨program.bodySize + 1, (iterate_sweep_eq_optimize (Nat.lt_succ_self _)).symm,
    fun _ hmem => (Procedure.iterate_sweep_eq_optimize (length_tail_le hmem)).symm⟩

/-- What harmless sweeps keep is kept by optimizing. -/
theorem Program.optimize_keeps {keeps : Program → Prop}
    (hsweep : ∀ removes program, Peephole.Harmless removes → keeps program →
      keeps (program.sweep removes)) {program : Program} (hprogram : keeps program) :
    keeps program.optimize := by
  have hiterate : ∀ (count : Nat) (program : Program), keeps program →
      keeps ((Program.sweep Peephole.isVainJump)^[count] program) := by
    intro count
    induction count with
    | zero => exact fun _ hprogram => hprogram
    | succ count ih =>
        intro program hprogram
        rw [Function.iterate_succ_apply]
        exact ih _ (hsweep _ _ Peephole.harmless_isVainJump hprogram)
  obtain ⟨count, hoptimize, _⟩ := program.exists_iterate_eq_optimize
  rw [hoptimize]
  exact hiterate count _ (hsweep _ _ Peephole.harmless_isIdle hprogram)

/-- Optimizing a program keeps what each of its procedures does. Whatever the store and
the input, the procedure comes to the same visible quads with the same stores, outputs
and calls before and after, and it reaches its end with the same store or not at all. -/
theorem optimize_keeps_runs (program : Program) (labelled : program.WellLabelled)
    (procedure : Procedure) (hmem : procedure ∈ program.procedures) (store : Store)
    (activation : Activation) :
    SameRuns program program.optimize (procedure.start store activation)
      (procedure.optimize.start store activation) := by
  have hall : ∀ other ∈ program.procedures, other.WellLabelled :=
    fun other hother => labelled.procedure hother
  obtain ⟨count, hprogram, hprocedure⟩ := program.exists_iterate_eq_optimize
  rw [hprogram, hprocedure procedure hmem]
  exact (Program.sameRuns_sweep Peephole.harmless_isIdle hall hmem store activation).trans
    (Program.sameRuns_iterate_sweep Peephole.harmless_isVainJump count
      (Program.wellLabelled_sweep Peephole.harmless_isIdle hall) (List.mem_map_of_mem hmem)
      store activation)

/-- A procedure that counts a variable down to zero and reports it on the way. Its loop ends
in a jump to the end of the procedure, and both landings of the loop do nothing. -/
def countdown : Procedure where
  index := 0
  name := "main"
  params := []
  result := .void
  exit := .numbered 0
  exitLabels := [.numbered 0]
  body :=
    let counter : Operand := .var ⟨1, "counter", slotWidth⟩
    [.landing (.numbered 1),
      .plain (.ifZero counter (.numbered 2)),
      .plain (.output counter .int),
      .plain (.binary .sub counter counter (.constant "1")),
      .plain (.goto (.numbered 1)),
      .landing (.numbered 2),
      .plain (.goto (.numbered 0))]

/-- The program that only counts down. -/
def countdownProgram : Program where
  globals := [⟨1, "counter", slotWidth⟩]
  procedures := [countdown]
  nextLabel := 3

/-- Optimizing removes quads of the countdown and keeps what it does from any store. -/
theorem optimize_keeps_runs_countdown :
    countdownProgram.WellLabelled ∧ countdown ∈ countdownProgram.procedures ∧
      countdownProgram.removable = 3 ∧
      ∀ store activation, SameRuns countdownProgram countdownProgram.optimize
        (countdown.start store activation) (countdown.optimize.start store activation) := by
  have labelled : countdownProgram.WellLabelled := by
    refine ⟨by decide, ?_⟩
    intro procedure hprocedure quad hquad label hlabel
    rw [List.mem_singleton.1 hprocedure] at hquad ⊢
    have hjumps : ∀ quad ∈ countdown.quads, quad.instr.jumpTarget?.all
        (· ∈ labelsOf countdown.tail) = true := by decide
    have hmem := hjumps quad hquad
    rw [hlabel, Option.all_some, decide_eq_true_iff] at hmem
    exact List.mem_flatMap.1 hmem
  have hmem : countdown ∈ countdownProgram.procedures := List.mem_singleton.2 rfl
  exact ⟨labelled, hmem, by decide +kernel, fun store activation =>
    optimize_keeps_runs countdownProgram labelled countdown hmem store activation⟩

end Shanty.Code
