/-
# Calls in emitted code

The code of a procedure consists of a piece for each of its quads. Between the quads that set the
arguments of a call, the stack holds what has been pushed for it so far, and everywhere else it is as
high as right after the procedure was entered. So the code keeps the stack in order, and each call
finds its arguments set by the pieces right before it and received by the first pieces of the callee.

All this needs to be known of a machine only for one quad at a time.
-/

import Shanty.Proofs.Code.Calls
import Shanty.Proofs.Target.Stack

namespace Shanty.Target

open Bytes (span)
open Code (Operand Quad Procedure Program Variable Site Label Pending Ongoing setArgAt getArgAt
  entryLabel)

variable {Instr State : Type} {width : Nat}

/-! ## Emission quad by quad -/

/-- The number of quads that set an argument at the beginning of some quads. -/
def settings (quads : List Quad) : Nat := (quads.takeWhile (·.instr.isSetArg)).length

theorem settings_of_setArg {quad : Quad} (hset : quad.instr.isSetArg = true) (rest : List Quad) :
    settings (quad :: rest) = settings rest + 1 := by
  simp [settings, hset]

theorem settings_of_not_setArg {quad : Quad} (hset : quad.instr.isSetArg = false)
    (rest : List Quad) : settings (quad :: rest) = 0 := by
  simp [settings, hset]

theorem settings_append {sets : List Quad} (hsets : ∀ quad ∈ sets, quad.instr.isSetArg = true)
    {rest : List Quad} (hrest : settings rest = 0) : settings (sets ++ rest) = sets.length := by
  induction sets with
  | nil => exact hrest
  | cons quad sets ih =>
      rw [List.forall_mem_cons] at hsets
      rw [List.cons_append, settings_of_setArg hsets.1, ih hsets.2]
      rfl

/-- How a machine turns quads into code, as far as it matters for calls. -/
structure Emitter (abi : Abi Instr State width) where
  discipline : Discipline abi
  /-- The heights of the stack at which something may be called. -/
  allowed : BitVec width → Prop
  /-- The height of the stack in a procedure outside of calls. -/
  base : Procedure → BitVec width
  /-- The number of words on the stack when of some number of arguments the first ones are set. -/
  pushed : Nat → Nat → Nat
  /-- The code of the first of some quads of a procedure, given the number of words on the stack, and
  that number afterwards. -/
  code : Placement → Procedure → Nat → Quad → List Quad → Except Fault (List Instr × Nat)
  pushed_zero : ∀ count, pushed count 0 = 0
  allowed_base : ∀ procedure, allowed (base procedure)
  enters : ∀ {placement procedure before rest instrs after},
    code placement procedure before procedure.enterQuad rest = .ok (instrs, after) →
    after = before ∧ abi.Enters procedure instrs ∧
      discipline.Leads allowed (base procedure) discipline.linkage (instrs.map .instr)
        (base procedure)
  leaves : ∀ {placement procedure before rest instrs after},
    code placement procedure before procedure.leaveQuad rest = .ok (instrs, after) →
    after = before ∧
      discipline.Level allowed (base procedure) (base procedure) (instrs.map .instr)
  sets : ∀ {placement procedure count index quad rest instrs after arg},
    code placement procedure (pushed count index) quad rest = .ok (instrs, after) →
    quad.instr = setArgAt index arg → count = index + settings (quad :: rest) →
    after = pushed count (index + 1) ∧ abi.Sends placement count index arg instrs ∧
      discipline.Leads allowed (base procedure) (base procedure + span width (pushed count index))
        (instrs.map .instr) (base procedure + span width after)
  calls : ∀ {placement procedure count quad rest instrs after callee},
    code placement procedure (pushed count count) quad rest = .ok (instrs, after) →
    quad.instr = .call callee →
    after = 0 ∧ (∃ call release, instrs = call :: release ∧
        ∀ labels state, abi.exec labels call state = some (state, .call (entryLabel callee))) ∧
      discipline.Leads allowed (base procedure) (base procedure + span width (pushed count count))
        (instrs.map .instr) (base procedure)
  idle : ∀ {placement procedure before quad rest instrs after},
    code placement procedure before quad rest = .ok (instrs, after) →
    quad.instr.phase = .idle → quad.instr.Inner →
    after = before ∧ discipline.SteadyCode instrs
  takes : ∀ {placement procedure before quad rest instrs after count index type formal},
    code placement procedure before quad rest = .ok (instrs, after) →
    quad.instr = getArgAt count index (type, formal) → index < count →
    formal.width = type.size → 8 ∣ formal.width.toInt →
    abi.Takes placement count index formal type instrs

namespace Emitter

variable {abi : Abi Instr State width} (emitter : Emitter abi)

/-- The lines of each of some quads, and the number of words on the stack before and after them. -/
inductive Emits (placement : Placement) (procedure : Procedure) :
    Nat → List Quad → List (List (Line Instr)) → Nat → Prop
  | nil {before : Nat} : Emits placement procedure before [] [] before
  | cons {before middle after : Nat} {quad : Quad} {rest : List Quad} {instrs : List Instr}
      {chunks : List (List (Line Instr))} :
      emitter.code placement procedure before quad rest = .ok (instrs, middle) →
      Emits placement procedure middle rest chunks after →
      Emits placement procedure before (quad :: rest)
        ((labelLines quad ++ instrs.map .instr) :: chunks) after

/-- The number of words on the stack between quads with pending arguments. -/
def waiting (pending : Pending) (quads : List Quad) : Nat :=
  emitter.pushed (pending.args.length + settings quads) pending.args.length

/-- The height of the stack between quads with pending arguments. -/
def height (procedure : Procedure) (pending : Pending) (quads : List Quad) : BitVec width :=
  emitter.base procedure + span width (emitter.waiting pending quads)

section Emits

variable {emitter : Emitter abi} {placement : Placement} {procedure : Procedure} {site : Site}
  {labels : List Label} {pending : Pending} {quad : Quad} {front back rest : List Quad}
  {chunks : List (List (Line Instr))} {before after : Nat}

theorem Emits.exists_of_cons
    (hemits : emitter.Emits placement procedure before (quad :: rest) chunks after) :
    ∃ instrs middle chunks', chunks = (labelLines quad ++ instrs.map .instr) :: chunks' ∧
      emitter.code placement procedure before quad rest = .ok (instrs, middle) ∧
      emitter.Emits placement procedure middle rest chunks' after := by
  cases hemits with
  | cons hcode hrest => exact ⟨_, _, _, rfl, hcode, hrest⟩

theorem Emits.length (hemits : emitter.Emits placement procedure before front chunks after) :
    chunks.length = front.length := by
  induction hemits with
  | nil => rfl
  | cons _ _ ih => rw [List.length_cons, ih, List.length_cons]

theorem waiting_of_nil (hargs : pending.args = []) : emitter.waiting pending rest = 0 := by
  rw [waiting, hargs]
  exact emitter.pushed_zero _

theorem height_of_nil (hargs : pending.args = []) :
    emitter.height procedure pending rest = emitter.base procedure := by
  rw [height, waiting_of_nil hargs, Bytes.span_zero]
  exact BitVec.add_zero _

/-- One quad keeps the count of what is on the stack, and so the height of the stack. -/
theorem leads_of_code (hongoing : Ongoing site labels pending (quad :: rest))
    (hinner : quad.instr.Inner) {instrs : List Instr}
    (hcode : emitter.code placement procedure (emitter.waiting pending (quad :: rest)) quad rest =
      .ok (instrs, after)) :
    ∃ middle, site.Fits labels pending quad.instr middle ∧ Ongoing site labels middle rest ∧
      after = emitter.waiting middle rest ∧
      emitter.discipline.Leads emitter.allowed (emitter.base procedure)
        (emitter.height procedure pending (quad :: rest)) (labelLines quad ++ instrs.map .instr)
        (emitter.height procedure middle rest) := by
  have hlabels : emitter.discipline.Leads emitter.allowed (emitter.base procedure)
      (emitter.height procedure pending (quad :: rest)) (labelLines quad)
      (emitter.height procedure pending (quad :: rest)) := by
    by_cases hargs : pending.args = []
    · rw [height_of_nil hargs]
      exact Discipline.leads_labelLines quad
    · rw [labelLines, hongoing.labels_eq hargs]
      exact .refl
  suffices hcode : ∃ middle, site.Fits labels pending quad.instr middle ∧
      Ongoing site labels middle rest ∧ after = emitter.waiting middle rest ∧
      emitter.discipline.Leads emitter.allowed (emitter.base procedure)
        (emitter.height procedure pending (quad :: rest)) (instrs.map .instr)
        (emitter.height procedure middle rest) by
    obtain ⟨middle, hfits, hrest, hafter, hleads⟩ := hcode
    exact ⟨middle, hfits, hrest, hafter, hlabels.append hleads⟩
  have hnext := hongoing.next
  generalize hinstr : quad.instr = instr at hnext
  cases hnext with
  | @sets arg hpasses hrest =>
      have hcount : settings (quad :: rest) = settings rest + 1 :=
        settings_of_setArg (by rw [hinstr]; rfl) rest
      obtain ⟨hafter, _, hleads⟩ := emitter.sets hcode hinstr rfl
      have hwaiting : after =
          emitter.waiting { pending with args := pending.args ++ [arg.2] } rest := by
        rw [hafter, waiting, hcount, List.length_append, List.length_singleton,
          show pending.args.length + (settings rest + 1) =
            pending.args.length + 1 + settings rest by omega]
      refine ⟨_, .setArg hpasses, hrest, hwaiting, ?_⟩
      rw [height, height, ← hwaiting]
      exact hleads
  | calls hsignature hrest =>
      have hwaiting : emitter.waiting pending (quad :: rest) =
          emitter.pushed pending.args.length pending.args.length := by
        rw [waiting, settings_of_not_setArg (by rw [hinstr]; rfl) rest]
        rfl
      rw [hwaiting] at hcode
      obtain ⟨hafter, _, hleads⟩ := emitter.calls hcode hinstr
      refine ⟨_, .call hsignature, hrest, by rw [hafter, waiting_of_nil rfl], ?_⟩
      rw [height, hwaiting, height_of_nil rfl]
      exact hleads
  | idle hphase hargs hfits hstays hrest =>
      rw [waiting_of_nil hargs] at hcode
      obtain ⟨hafter, hsteady⟩ := emitter.idle hcode (hinstr ▸ hphase) hinner
      refine ⟨_, hfits, hrest, by rw [hafter, waiting_of_nil hstays], ?_⟩
      rw [height_of_nil hargs, height_of_nil hstays]
      exact Discipline.leads_of_steady (emitter.allowed_base procedure) hsteady

/-- So do several quads. -/
theorem Emits.exists_of_append
    (hemits : emitter.Emits placement procedure before (front ++ back) chunks after)
    (hongoing : Ongoing site labels pending (front ++ back))
    (hbefore : before = emitter.waiting pending (front ++ back))
    (hinner : ∀ quad ∈ front, quad.instr.Inner) :
    ∃ chunks' chunks'' middle, chunks = chunks' ++ chunks'' ∧ chunks'.length = front.length ∧
      site.AllFit labels pending front middle ∧ Ongoing site labels middle back ∧
      emitter.Emits placement procedure (emitter.waiting middle back) back chunks'' after ∧
      emitter.discipline.Leads emitter.allowed (emitter.base procedure)
        (emitter.height procedure pending (front ++ back)) chunks'.flatten
        (emitter.height procedure middle back) := by
  subst hbefore
  induction front generalizing pending chunks with
  | nil => exact ⟨[], chunks, pending, rfl, rfl, .nil, hongoing, hemits, .refl⟩
  | cons quad front ih =>
      rw [List.forall_mem_cons] at hinner
      cases hemits with
      | cons hcode hrest =>
          obtain ⟨middle, hfits, hongoing', rfl, hleads⟩ := leads_of_code hongoing hinner.1 hcode
          obtain ⟨chunks', chunks'', final, rfl, hlength, hall, hback, hemits', hleads'⟩ :=
            ih hongoing' hinner.2 hrest
          refine ⟨_ :: chunks', chunks'', final, rfl, by rw [List.length_cons, hlength]; rfl,
            .cons hfits hall, hback, hemits', ?_⟩
          rw [List.flatten_cons]
          exact hleads.append hleads'

end Emits

/-! ## Procedures -/

end Emitter

/-- The code of a procedure. -/
structure Routine (Instr : Type) where
  procedure : Procedure
  placement : Placement
  /-- The lines of the quad at which the procedure is entered. -/
  entering : List (Line Instr)
  /-- The lines of each quad of its body. -/
  chunks : List (List (Line Instr))
  /-- The lines of the quad at which it is left. -/
  leaving : List (Line Instr)

/-- The lines of a procedure. -/
def Routine.lines (routine : Routine Instr) : List (Line Instr) :=
  routine.entering ++ routine.chunks.flatten ++ routine.leaving

/-- The instructions among some lines. -/
def instrs (lines : List (Line Instr)) : List Instr :=
  lines.filterMap fun
    | .instr instr => some instr
    | _ => none

theorem instrs_append (front back : List (Line Instr)) :
    instrs (front ++ back) = instrs front ++ instrs back := List.filterMap_append

@[simp]
theorem instrs_map (code : List Instr) : instrs (code.map Line.instr) = code := by
  simp [instrs, List.filterMap_map]

@[simp]
theorem instrs_labelLines (quad : Quad) : instrs (labelLines quad : List (Line Instr)) = [] := by
  simp [instrs, labelLines, List.filterMap_map]

namespace Emitter

variable {abi : Abi Instr State width} {emitter : Emitter abi}

/-- A routine is the code of its procedure. -/
structure Emitted (emitter : Emitter abi) (routine : Routine Instr) : Prop where
  length : routine.chunks.length = routine.procedure.body.length
  emits : ∃ after, emitter.Emits routine.placement routine.procedure 0 routine.procedure.quads
    (routine.entering :: (routine.chunks ++ [routine.leaving])) after

section Routine

variable {program : Program} {routine : Routine Instr} {quad : Quad} {front back : List Quad}

/-- In order to know about a part of the body, it is enough to know what is pending before it. -/
theorem Emitted.exists_split (hemitted : emitter.Emitted routine)
    (hshaped : routine.procedure.Shaped program) (hfitting : routine.procedure.Fitting program)
    (hbody : routine.procedure.body = front ++ back) :
    ∃ chunks chunks' pending after, routine.chunks = chunks ++ chunks' ∧
      chunks.length = front.length ∧
      (program.site routine.procedure).AllFit (Code.labelsOf routine.procedure.tail) {} front
        pending ∧
      Ongoing (program.site routine.procedure) (Code.labelsOf routine.procedure.tail) pending
        (back ++ [routine.procedure.leaveQuad]) ∧
      emitter.Emits routine.placement routine.procedure
        (emitter.waiting pending (back ++ [routine.procedure.leaveQuad]))
        (back ++ [routine.procedure.leaveQuad]) (chunks' ++ [routine.leaving]) after := by
  obtain ⟨after, hemits⟩ := hemitted.emits
  have htail : routine.procedure.tail = front ++ (back ++ [routine.procedure.leaveQuad]) := by
    rw [Procedure.tail, hbody, List.append_assoc]
  obtain ⟨_, _, _, hcons, henter, hrest⟩ := hemits.exists_of_cons
  obtain ⟨rfl, _⟩ := emitter.enters henter
  obtain ⟨_, rfl⟩ := List.cons.inj hcons
  have hongoing : Ongoing (program.site routine.procedure)
      (Code.labelsOf routine.procedure.tail) {} routine.procedure.tail :=
    ⟨hfitting.quads, .idle, hshaped.unbroken.2, fun _ => rfl⟩
  change emitter.Emits _ _ _ routine.procedure.tail _ _ at hrest
  generalize Code.labelsOf routine.procedure.tail = labels at hongoing ⊢
  rw [htail] at hrest hongoing
  obtain ⟨chunks, chunks', pending, hchunks, hlength, hall, hback, hemits, _⟩ :=
    hrest.exists_of_append hongoing (waiting_of_nil rfl).symm fun quad hquad =>
      hshaped.inner quad (hbody ▸ List.mem_append_left back hquad)
  have hle : chunks.length ≤ routine.chunks.length := by
    rw [hlength, hemitted.length, hbody, List.length_append]
    exact Nat.le_add_right _ _
  obtain ⟨others, hothers⟩ := List.prefix_of_prefix_length_le ⟨chunks', hchunks.symm⟩
    (List.prefix_append routine.chunks [routine.leaving]) hle
  rw [← hothers, List.append_assoc, List.append_cancel_left_eq] at hchunks
  rw [← hchunks] at hemits
  exact ⟨chunks, others, pending, after, hothers.symm, hlength, hall, hback, hemits⟩

/-- The code of a quad of the body. -/
theorem Emitted.exists_code (hemitted : emitter.Emitted routine)
    (hshaped : routine.procedure.Shaped program) (hfitting : routine.procedure.Fitting program)
    (hbody : routine.procedure.body = front ++ quad :: back) :
    ∃ instrs after pending, routine.chunks[front.length]? =
        some (labelLines quad ++ instrs.map .instr) ∧
      (program.site routine.procedure).AllFit (Code.labelsOf routine.procedure.tail) {} front
        pending ∧
      Ongoing (program.site routine.procedure) (Code.labelsOf routine.procedure.tail) pending
        (quad :: (back ++ [routine.procedure.leaveQuad])) ∧
      emitter.code routine.placement routine.procedure
        (emitter.waiting pending (quad :: (back ++ [routine.procedure.leaveQuad]))) quad
        (back ++ [routine.procedure.leaveQuad]) = .ok (instrs, after) := by
  obtain ⟨chunks, chunks', pending, _, hchunks, hlength, hall, hongoing, hemits⟩ :=
    hemitted.exists_split hshaped hfitting hbody
  obtain ⟨instrs, after, chunks'', hcons, hcode, _⟩ := hemits.exists_of_cons
  refine ⟨instrs, after, pending, ?_, hall, hongoing, hcode⟩
  have hchunk : chunks'[0]? = some (labelLines quad ++ instrs.map .instr) := by
    have hcount : chunks.length + chunks'.length = front.length + (back.length + 1) := by
      rw [← List.length_append, ← hchunks, hemitted.length, hbody, List.length_append,
        List.length_cons]
    rw [← List.getElem?_append_left (show 0 < chunks'.length by omega), hcons]
    rfl
  rw [hchunks, ← hlength, List.getElem?_append_right (Nat.le_refl _), Nat.sub_self, hchunk]

/-- The rest of a routine is reached with the height that goes with what is pending, and in the end
nothing is left on the stack for a call. -/
theorem Emits.level {site : Site} {labels : List Label} {placement : Placement}
    {procedure : Procedure} {quads : List Quad} {chunks : List (List (Line Instr))}
    {before after : Nat} {pending : Pending}
    (hemits : emitter.Emits placement procedure before (quads ++ [procedure.leaveQuad]) chunks after)
    (hongoing : Ongoing site labels pending (quads ++ [procedure.leaveQuad]))
    (hbefore : before = emitter.waiting pending (quads ++ [procedure.leaveQuad]))
    (hinner : ∀ quad ∈ quads, quad.instr.Inner) :
    emitter.discipline.Level emitter.allowed (emitter.base procedure)
      (emitter.height procedure pending (quads ++ [procedure.leaveQuad])) chunks.flatten ∧
      after = 0 := by
  obtain ⟨chunks', chunks'', middle, rfl, _, _, hlast, hleave, hleads⟩ :=
    hemits.exists_of_append hongoing hbefore hinner
  obtain ⟨instrs, _, rest, rfl, hcode, hnil⟩ := hleave.exists_of_cons
  cases hnil
  have hargs : middle.args = [] := by
    have hnext := hlast.next
    generalize hinstr : Quad.instr _ = instr at hnext
    cases hnext with
    | idle _ hargs => exact hargs
    | sets => cases hinstr
    | calls => cases hinstr
  obtain ⟨hafter, hlevel⟩ := emitter.leaves hcode
  rw [List.flatten_append, List.flatten_singleton]
  refine ⟨hleads _ ?_, hafter.trans (waiting_of_nil hargs)⟩
  rw [height_of_nil hargs]
  exact Discipline.leads_labelLines _ _ hlevel

/-- The code of all quads of a procedure is that of a routine. -/
theorem Emits.exists_routine {placement : Placement} {procedure : Procedure}
    {chunks : List (List (Line Instr))} {after : Nat} (hshaped : procedure.Shaped program)
    (hfitting : procedure.Fitting program)
    (hemits : emitter.Emits placement procedure 0 procedure.quads chunks after) :
    after = 0 ∧ ∃ routine : Routine Instr, routine.procedure = procedure ∧
      routine.placement = placement ∧ routine.lines = chunks.flatten ∧ emitter.Emitted routine := by
  have hlength := hemits.length
  obtain ⟨instrs, _, others, rfl, henter, hrest⟩ := hemits.exists_of_cons
  obtain ⟨rfl, _⟩ := emitter.enters henter
  obtain ⟨_, hafter⟩ := Emits.level hrest ⟨hfitting.quads, .idle, hshaped.unbroken.2, fun _ => rfl⟩
    (waiting_of_nil rfl).symm hshaped.inner
  rw [Procedure.quads, List.length_cons, List.length_cons, List.length_append] at hlength
  rcases List.eq_nil_or_concat others with rfl | ⟨chunks, leaving, rfl⟩
  · simp at hlength
  rw [List.concat_eq_append] at hlength hemits ⊢
  refine ⟨hafter, ⟨procedure, placement, _, chunks, leaving⟩, rfl, rfl, ?_, ?_, after, hemits⟩
  · rw [Routine.lines, List.flatten_cons, List.flatten_append, List.flatten_singleton,
      List.append_assoc]
  · simpa using hlength

/-- A routine keeps the stack in order from its first line on. -/
theorem Emitted.exists_level (hemitted : emitter.Emitted routine)
    (hshaped : routine.procedure.Shaped program) (hfitting : routine.procedure.Fitting program) :
    ∃ body, routine.lines = .label (entryLabel routine.procedure.name) :: body ∧
      emitter.discipline.Level emitter.allowed (emitter.base routine.procedure)
        emitter.discipline.linkage body := by
  obtain ⟨after, hemits⟩ := hemitted.emits
  obtain ⟨instrs, _, _, hcons, henter, hrest⟩ := hemits.exists_of_cons
  obtain ⟨rfl, _, hleads⟩ := emitter.enters henter
  obtain ⟨hentering, rfl⟩ := List.cons.inj hcons
  obtain ⟨hlevel, _⟩ := Emits.level hrest ⟨hfitting.quads, .idle, hshaped.unbroken.2, fun _ => rfl⟩
    (waiting_of_nil rfl).symm hshaped.inner
  rw [height_of_nil rfl, List.flatten_append, List.flatten_singleton] at hlevel
  refine ⟨instrs.map .instr ++ (routine.chunks.flatten ++ routine.leaving), ?_, hleads _ hlevel⟩
  rw [Routine.lines, hentering, List.append_assoc]
  rfl

/-- In front of each part of the body, the stack is as high as it was in the beginning if no argument
is pending there. -/
theorem Emitted.level_of_part (hemitted : emitter.Emitted routine)
    (hshaped : routine.procedure.Shaped program) (hfitting : routine.procedure.Fitting program)
    (hbody : routine.procedure.body = front ++ back) {last : Option Ty}
    (hall : (program.site routine.procedure).AllFit (Code.labelsOf routine.procedure.tail) {} front
      ⟨[], last⟩) :
    emitter.discipline.Level emitter.allowed (emitter.base routine.procedure)
      (emitter.base routine.procedure)
      ((routine.chunks.drop front.length).flatten ++ routine.leaving) := by
  obtain ⟨chunks, chunks', pending, _, hchunks, hlength, hall', hongoing, hemits⟩ :=
    hemitted.exists_split hshaped hfitting hbody
  obtain rfl := hall.unique hall'
  obtain ⟨hlevel, _⟩ := Emits.level hemits hongoing rfl fun quad hquad =>
    hshaped.inner quad (hbody ▸ List.mem_append_right front hquad)
  rw [height_of_nil rfl, List.flatten_append, List.flatten_singleton] at hlevel
  rw [hchunks, List.drop_left' hlength]
  exact hlevel

end Routine

/-- Routines that are all emitted keep the stack in order. -/
theorem orderly {program : Program} (hfitting : program.Fitting) (hshaped : program.Shaped)
    {routines : List (Routine Instr)}
    (hprocedures : routines.map (·.procedure) = program.procedures)
    (hemitted : ∀ routine ∈ routines, emitter.Emitted routine) :
    emitter.discipline.Orderly emitter.allowed (routines.map (·.lines)) := by
  intro name body hmem
  obtain ⟨routine, hroutine, hlines⟩ := List.mem_map.1 hmem
  have hprocedure : routine.procedure ∈ program.procedures := by
    rw [← hprocedures]
    exact List.mem_map_of_mem hroutine
  obtain ⟨body', hlines', hlevel⟩ := (hemitted routine hroutine).exists_level
    (hshaped _ hprocedure) (hfitting.procedures _ hprocedure)
  obtain ⟨_, rfl⟩ := List.cons.inj (hlines.symm.trans hlines')
  exact ⟨_, hlevel⟩

end Emitter

/-! ## Calls of one routine by another one -/

/-- Where the quads of a call are, which follows some quads of the caller, and where their code is. -/
structure Handover (caller callee : Routine Instr) (front : List Quad) where
  args : List (Operand × Ty)
  /-- The quads before the ones that set the arguments, which come next. -/
  earlier : List Quad
  sets : List Quad
  /-- The quads that receive the arguments, and the ones behind them. -/
  gets : List Quad
  others : List Quad
  /-- The lines of the caller for each quad: what comes before the call, its arguments, the call itself
  and what comes behind it. -/
  before : List (List (Line Instr))
  passing : List (List (Line Instr))
  calling : List (Line Instr)
  after : List (List (Line Instr))
  /-- The lines of the callee for each quad: the ones that receive the arguments and the other ones. -/
  receiving : List (List (Line Instr))
  rest : List (List (Line Instr))
  front_eq : front = earlier ++ sets
  sets_eq : sets.map (·.instr) = args.mapIdx setArgAt
  types_eq : args.map (·.2) = callee.procedure.params
  body_eq : callee.procedure.body = gets ++ others
  gets_eq : gets.map (·.instr) = (callee.procedure.params.zip callee.procedure.formals).mapIdx
    (getArgAt args.length)
  chunks_eq : caller.chunks = before ++ (passing ++ calling :: after)
  before_length : before.length = earlier.length
  passing_length : passing.length = args.length
  callee_eq : callee.chunks = receiving ++ rest
  receiving_length : receiving.length = args.length

/-- What is left of the caller after the call. -/
def Handover.remaining {caller callee : Routine Instr} {front : List Quad}
    (handover : Handover caller callee front) : List (Line Instr) :=
  handover.after.flatten ++ caller.leaving

/-- A call is made as it should be. All arguments are there, the callee gets them, the call leads to it,
and after the call has been cleaned up, the stack pointer is where it was before the first argument was
set. -/
structure Handover.Sound {caller callee : Routine Instr} {front : List Quad}
    (handover : Handover caller callee front) (abi : Abi Instr State width) (program : Program)
    (texts : List (List (Line Instr))) : Prop where
  handed : ∀ arg ∈ handover.args, ∀ scene : Scene width, ∃ word,
    handed? abi.machine caller.placement scene (Ty.isRecord arg.2) arg.1 = some word
  delivers : abi.Delivers program caller.procedure callee.procedure caller.placement callee.placement
    handover.args (handover.passing.map instrs) (instrs callee.entering)
    (handover.receiving.map instrs)
  calls : ∃ call release, instrs handover.calling = call :: release ∧ ∀ labels state,
    abi.exec labels call state = some (state, .call (entryLabel callee.procedure.name))
  restores : ∀ labels entry body start state, caller.lines = .label entry :: body →
    Run abi labels texts body (handover.passing.flatten ++ handover.calling ++ handover.remaining)
      start handover.remaining state →
    (abi.view state).stack = (abi.view start).stack

namespace Emitter

variable {abi : Abi Instr State width} {emitter : Emitter abi} {program : Program}
  {caller callee : Routine Instr} {front back : List Quad} {quad : Quad}

/-- Arguments are set by as many quads. -/
theorem length_args {site : Site} {labels : List Label} {before after : Pending} {quads : List Quad}
    (hall : site.AllFit labels before quads after)
    (hset : ∀ quad ∈ quads, quad.instr.isSetArg = true) :
    after.args.length = before.args.length + quads.length := by
  induction hall with
  | nil => rfl
  | cons hfits _ ih =>
      rw [List.forall_mem_cons] at hset
      rw [ih hset.2, List.length_cons]
      have hfirst := hset.1
      generalize Quad.instr _ = instr at hfirst hfits
      cases hfits with
      | setArg =>
          simp only [List.length_append, List.length_singleton]
          omega
      | _ => cases hfirst

/-- The code that sets an argument of a call puts it down. -/
theorem Emitted.sends (hemitted : emitter.Emitted caller)
    (hshaped : caller.procedure.Shaped program) (hfitting : caller.procedure.Fitting program)
    {earlier sets : List Quad} {args : List (Operand × Ty)} {last : Option Ty} {name : String}
    (hbody : caller.procedure.body = earlier ++ sets ++ quad :: back)
    (hcall : quad.instr = .call name) (hsets : sets.map (·.instr) = args.mapIdx setArgAt)
    (hearlier : (program.site caller.procedure).AllFit (Code.labelsOf caller.procedure.tail) {}
      earlier ⟨[], last⟩) {index : Nat} {arg : Operand × Ty} (harg : args[index]? = some arg) :
    ∃ lines, caller.chunks[earlier.length + index]? = some lines ∧
      abi.Sends caller.placement args.length index arg (instrs lines) := by
  have hlength : sets.length = args.length := by
    simpa using congrArg List.length hsets
  obtain ⟨hindex, rfl⟩ := List.getElem?_eq_some_iff.1 harg
  have hset : ∀ quad ∈ sets, quad.instr.isSetArg = true := by
    intro quad hquad
    have hmem := List.mem_map_of_mem (f := (·.instr)) hquad
    rw [hsets, List.mem_mapIdx] at hmem
    obtain ⟨_, _, hinstr⟩ := hmem
    rw [← hinstr]
    rfl
  have hinstr : sets[index].instr = setArgAt index args[index] := by
    have heq := congrArg (·[index]?) hsets
    simpa [hlength, hindex] using heq
  have hdrop := List.drop_eq_getElem_cons (show index < sets.length by omega)
  have hcut : caller.procedure.body = earlier ++ sets.take index ++
      sets[index] :: (sets.drop (index + 1) ++ quad :: back) := by
    rw [hbody, ← List.cons_append, ← hdrop, List.append_assoc, List.append_assoc, ← List.append_assoc
      (sets.take index), List.take_append_drop]
  obtain ⟨code, after, pending, hchunk, hall, _, hcode⟩ := hemitted.exists_code hshaped hfitting hcut
  have hpending : pending.args.length = index := by
    obtain ⟨middle, hfirst, hsecond⟩ := hall.exists_of_append
    obtain rfl := hearlier.unique hfirst
    have hcount := length_args hsecond fun quad hquad => hset quad (List.mem_of_mem_take hquad)
    rw [hcount, List.length_take]
    exact (Nat.zero_add _).trans (Nat.min_eq_left (by omega))
  have hsettings : settings (sets[index] :: (sets.drop (index + 1) ++ quad :: back ++
      [caller.procedure.leaveQuad])) = args.length - index := by
    rw [List.append_assoc, ← List.cons_append, ← hdrop, List.cons_append, settings_append
      (fun quad hquad => hset quad (List.mem_of_mem_drop hquad))
      (settings_of_not_setArg (by rw [hcall]; rfl) _), List.length_drop, hlength]
  rw [waiting, hpending, hsettings, Nat.add_sub_cancel' (by omega)] at hcode
  obtain ⟨_, hsends, _⟩ := emitter.sets hcode hinstr (by rw [hsettings]; omega)
  rw [List.length_append, List.length_take, Nat.min_eq_left (by omega)] at hchunk
  refine ⟨_, hchunk, ?_⟩
  rw [instrs_append, instrs_labelLines, instrs_map]
  exact hsends

/-- The code that receives an argument takes it. -/
theorem Emitted.takes (hemitted : emitter.Emitted callee)
    (hshaped : callee.procedure.Shaped program) (hfitting : callee.procedure.Fitting program)
    {gets others : List Quad} (hbody : callee.procedure.body = gets ++ others)
    (hgets : gets.map (·.instr) = (callee.procedure.params.zip callee.procedure.formals).mapIdx
      (getArgAt callee.procedure.params.length))
    (hformals : List.Forall₂ (fun type formal => Ty.isStorable type = true ∧
      8 ∣ (Ty.size type).toInt ∧ Variable.width formal = Ty.size type)
        callee.procedure.params callee.procedure.formals)
    {index : Nat} {type : Ty} {formal : Variable} (htype : callee.procedure.params[index]? = some type)
    (hformal : callee.procedure.formals[index]? = some formal) :
    ∃ lines, callee.chunks[index]? = some lines ∧
      abi.Takes callee.placement callee.procedure.params.length index formal type (instrs lines) := by
  have hlength : gets.length = callee.procedure.params.length := by
    have heq := congrArg List.length hgets
    simpa [hformals.length_eq] using heq
  have hindex := (List.getElem?_eq_some_iff.1 htype).1
  obtain ⟨_, hdvd, hwidth⟩ := Abi.rel_of_getElem? hformals htype hformal
  have hinstr : gets[index].instr = getArgAt callee.procedure.params.length index (type, formal) := by
    have hzip : (callee.procedure.params.zip callee.procedure.formals)[index]? =
        some (type, formal) := List.getElem?_zip_eq_some.2 ⟨htype, hformal⟩
    have heq := congrArg (·[index]?) hgets
    simpa [hlength, hindex, hzip] using heq
  have hcut : callee.procedure.body = gets.take index ++
      gets[index] :: (gets.drop (index + 1) ++ others) := by
    rw [hbody, ← List.cons_append, ← List.drop_eq_getElem_cons, ← List.append_assoc,
      List.take_append_drop]
  obtain ⟨code, after, pending, hchunk, _, _, hcode⟩ := hemitted.exists_code hshaped hfitting hcut
  rw [List.length_take, Nat.min_eq_left (by omega)] at hchunk
  refine ⟨_, hchunk, ?_⟩
  rw [instrs_append, instrs_labelLines, instrs_map]
  exact emitter.takes hcode hinstr hindex hwidth (hwidth ▸ hdvd)

/-- The code of a call itself, which has as many arguments as the callee has parameters. -/
theorem Emitted.exists_calling (hemitted : emitter.Emitted caller)
    (hshaped : caller.procedure.Shaped program) (hfitting : caller.procedure.Fitting program)
    (hbody : caller.procedure.body = front ++ quad :: back) {name : String}
    (hcall : quad.instr = .call name) :
    ∃ lines pending result, caller.chunks[front.length]? = some lines ∧
      (∃ call release, instrs lines = call :: release ∧ ∀ labels state,
        abi.exec labels call state = some (state, .call (entryLabel name))) ∧
      (program.site caller.procedure).AllFit (Code.labelsOf caller.procedure.tail) {} front
        pending ∧
      (program.site caller.procedure).signature? name = some (pending.args, result) := by
  obtain ⟨code, after, pending, hchunk, hall, hongoing, hcode⟩ :=
    hemitted.exists_code hshaped hfitting hbody
  have hnext := hongoing.next
  rw [hcall] at hnext
  cases hnext with
  | idle hphase => cases hphase
  | @calls _ result hsignature _ =>
      rw [waiting, settings_of_not_setArg (by rw [hcall]; rfl) _] at hcode
      obtain ⟨_, ⟨call, release, rfl, hexec⟩, _⟩ := emitter.calls hcode hcall
      refine ⟨_, pending, result, hchunk, ⟨call, release, ?_, hexec⟩, hall, hsignature⟩
      rw [instrs_append, instrs_labelLines, instrs_map]
      rfl

theorem Emitted.enters (hemitted : emitter.Emitted callee) :
    abi.Enters callee.procedure (instrs callee.entering) := by
  obtain ⟨after, hemits⟩ := hemitted.emits
  obtain ⟨code, _, _, hcons, henter, _⟩ := hemits.exists_of_cons
  rw [(List.cons.inj hcons).1, instrs_append, instrs_labelLines, instrs_map]
  exact (emitter.enters henter).2.1

/-- Each call of an accepted program is made as it should be. -/
theorem exists_handover (hemitted : emitter.Emitted caller) (hemitted' : emitter.Emitted callee)
    (hshaped : caller.procedure.Shaped program) (hfitting : caller.procedure.Fitting program)
    (hshaped' : callee.procedure.Shaped program) (hfitting' : callee.procedure.Fitting program)
    (hplaced : Placed abi.machine abi.start abi.scale program caller.procedure caller.placement)
    (hplaced' : Placed abi.machine abi.start abi.scale program callee.procedure callee.placement)
    {texts : List (List (Line Instr))} (horderly : emitter.discipline.Orderly emitter.allowed texts)
    (hbody : caller.procedure.body = front ++ quad :: back)
    (hcall : quad.instr = .call callee.procedure.name)
    (hcallee : program.procedure? callee.procedure.name = some callee.procedure) :
    ∃ handover : Handover caller callee front, handover.Sound abi program texts := by
  obtain ⟨lines, pending, result, hlines, hcalls, hall, hsignature⟩ :=
    hemitted.exists_calling hshaped hfitting hbody hcall
  have hquads : Code.Unbroken .idle (front ++ (quad :: back ++ [caller.procedure.leaveQuad])) := by
    rw [← List.append_assoc, ← hbody]
    exact hshaped.unbroken.2
  obtain ⟨earlier, sets, args, last, rfl, hsets, rfl, hpasses, hearlier, _⟩ :=
    Code.exists_args hall hquads
  have htypes : args.map (·.2) = callee.procedure.params := by
    simp only [Program.site, hcallee, Option.map_some, Option.some.injEq, Prod.mk.injEq] at hsignature
    exact hsignature.1.symm
  have hcount : args.length = callee.procedure.params.length := by
    rw [← htypes, List.length_map]
  have hsetsLength : sets.length = args.length := by
    simpa using congrArg List.length hsets
  obtain ⟨gets, others, hbody', hgets, hformals⟩ := hshaped'.exists_receiving hfitting'
  have hgetsLength : gets.length = args.length := by
    have heq := congrArg List.length hgets
    simpa [← hformals.length_eq, ← hcount] using heq
  have hformals' : List.Forall₂ (fun arg formal => Ty.isStorable arg.2 = true ∧
      8 ∣ (Ty.size arg.2).toInt ∧ Variable.width formal = Ty.size arg.2) args
        callee.procedure.formals := by
    rw [← htypes, List.forall₂_map_left_iff] at hformals
    exact hformals
  have hlength := hemitted.length
  have hlength' := hemitted'.length
  rw [hbody, List.length_append, List.length_append, List.length_cons] at hlength
  rw [hbody', List.length_append] at hlength'
  have hfrom : caller.chunks.drop (earlier ++ sets).length =
      lines :: caller.chunks.drop ((earlier ++ sets).length + 1) := by
    obtain ⟨hlt, rfl⟩ := List.getElem?_eq_some_iff.1 hlines
    exact List.drop_eq_getElem_cons hlt
  have hcut : caller.chunks.drop earlier.length =
      (caller.chunks.drop earlier.length).take args.length ++
        lines :: caller.chunks.drop ((earlier ++ sets).length + 1) := by
    rw [← hfrom, List.length_append, hsetsLength, ← List.drop_drop, List.take_append_drop]
  let handover : Handover caller callee (earlier ++ sets) := {
    args, earlier, sets, gets, others
    before := caller.chunks.take earlier.length
    passing := (caller.chunks.drop earlier.length).take args.length
    calling := lines
    after := caller.chunks.drop ((earlier ++ sets).length + 1)
    receiving := callee.chunks.take args.length
    rest := callee.chunks.drop args.length
    front_eq := rfl
    sets_eq := hsets
    types_eq := htypes
    body_eq := hbody'
    gets_eq := by rw [hgets, hcount]
    chunks_eq := by rw [← hcut, List.take_append_drop]
    before_length := by
      rw [List.length_take]
      omega
    passing_length := by
      rw [List.length_take, List.length_drop]
      omega
    callee_eq := (List.take_append_drop _ _).symm
    receiving_length := by
      rw [List.length_take]
      omega }
  refine ⟨handover, fun arg harg => hplaced.exists_handed (hpasses arg harg), ?_, hcalls, ?_⟩
  · apply Abi.delivers hplaced hplaced' hshaped (nodup_slots hfitting' hshaped') hpasses hformals'
    · rw [List.length_map]
      exact handover.passing_length
    · intro index arg harg
      obtain ⟨lines, hlines, hsends⟩ := hemitted.sends hshaped hfitting hbody hcall hsets hearlier harg
      have hindex := (List.getElem?_eq_some_iff.1 harg).1
      refine ⟨instrs lines, ?_, hsends⟩
      rw [List.getElem?_map, List.getElem?_take_of_lt hindex, List.getElem?_drop, hlines]
      rfl
    · exact hemitted'.enters
    · intro index arg formal harg hformal
      have hindex := (List.getElem?_eq_some_iff.1 harg).1
      have htype : callee.procedure.params[index]? = some arg.2 := by
        rw [← htypes, List.getElem?_map, harg]
        rfl
      obtain ⟨lines, hlines, htakes⟩ := hemitted'.takes hshaped' hfitting' hbody' hgets hformals htype
        hformal
      refine ⟨instrs lines, ?_, hcount ▸ htakes⟩
      rw [List.getElem?_map, List.getElem?_take_of_lt hindex, hlines]
      rfl
  · intro labels entry body start state htext hrun
    obtain ⟨body', htext', hlevel⟩ := hemitted.exists_level hshaped hfitting
    obtain ⟨_, rfl⟩ := List.cons.inj (htext.symm.trans htext')
    -- On both sides of the call no argument is pending.
    have hbefore := hemitted.level_of_part hshaped hfitting
      (hbody.trans (List.append_assoc _ _ _)) hearlier
    have hcalled : (program.site caller.procedure).AllFit (Code.labelsOf caller.procedure.tail) {}
        (earlier ++ sets ++ [quad]) ⟨[], some result⟩ :=
      hall.append (.cons (by rw [hcall]; exact .call hsignature) .nil)
    have hafter := hemitted.level_of_part hshaped hfitting
      (hbody.trans (List.append_cons _ _ _)) hcalled
    rw [hcut, List.flatten_append, List.flatten_cons, List.append_assoc, List.append_assoc] at hbefore
    rw [show (earlier ++ sets ++ [quad]).length = (earlier ++ sets).length + 1 from
      List.length_append] at hafter
    refine hrun.stack_eq horderly hlevel ?_ hafter
    rw [List.append_assoc]
    exact hbefore

/-- The code of a program consists of routines for its procedures, and whenever one of them calls
another one, the two agree on the arguments. -/
structure Agreement (emitter : Emitter abi) (program : Program) (texts : List (List (Line Instr)))
    (routines : List (Routine Instr)) : Prop where
  procedures : routines.map (·.procedure) = program.procedures
  emitted : ∀ routine ∈ routines, emitter.Emitted routine
  handovers : ∀ caller ∈ routines, ∀ front quad back name,
    caller.procedure.body = front ++ quad :: back → quad.instr = .call name →
    ∃ callee ∈ routines, callee.procedure.name = name ∧
      ∃ handover : Handover caller callee front, handover.Sound abi program texts

/-- Code that is emitted quad by quad for a program in shape is in agreement. -/
theorem agreement (hfitting : program.Fitting) (hshaped : program.Shaped)
    {routines : List (Routine Instr)}
    (hprocedures : routines.map (·.procedure) = program.procedures)
    (hemitted : ∀ routine ∈ routines, emitter.Emitted routine ∧
      Placed abi.machine abi.start abi.scale program routine.procedure routine.placement)
    {texts : List (List (Line Instr))}
    (horderly : emitter.discipline.Orderly emitter.allowed texts) :
    emitter.Agreement program texts routines := by
  have hmem : ∀ routine ∈ routines, routine.procedure ∈ program.procedures := by
    intro routine hroutine
    rw [← hprocedures]
    exact List.mem_map_of_mem hroutine
  refine ⟨hprocedures, fun routine hroutine => (hemitted routine hroutine).1, ?_⟩
  intro caller hcaller front quad back name hbody hcall
  obtain ⟨hemits, hplaced⟩ := hemitted caller hcaller
  have hshape := hshaped _ (hmem caller hcaller)
  have hfits := hfitting.procedures _ (hmem caller hcaller)
  obtain ⟨_, pending, result, _, _, _, hsignature⟩ := hemits.exists_calling hshape hfits hbody hcall
  obtain ⟨procedure, hprocedure, _⟩ := Option.map_eq_some_iff.1 hsignature
  have hname : procedure.name = name := by
    have hfound := List.find?_some hprocedure
    simpa using hfound
  have hin := List.mem_of_find?_eq_some hprocedure
  rw [← hprocedures] at hin
  obtain ⟨callee, hcallee, rfl⟩ := List.mem_map.1 hin
  obtain ⟨hemits', hplaced'⟩ := hemitted callee hcallee
  rw [← hname] at hcall hprocedure
  exact ⟨callee, hcallee, hname, exists_handover hemits hemits' hshape hfits
    (hshaped _ (hmem callee hcallee)) (hfitting.procedures _ (hmem callee hcallee)) hplaced hplaced'
    horderly hbody hcall hprocedure⟩

end Emitter

end Shanty.Target
