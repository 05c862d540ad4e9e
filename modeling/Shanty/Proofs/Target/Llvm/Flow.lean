/-
# The control flow of emitted functions

The blocks of a function are the stretches of quads between labels and jumps. The first one begins
where the procedure is entered, and since nothing jumps there, no block leads back to it. A block
that does not end in a jump goes on with the next one, and a jump leads to the block that begins
at the quad with its label. Blocks are named after a label or after their place, which gives no two of
them the same name.

Together with what is known of the values in a block this makes emitted functions well formed. It is
shown here for programs whose code fits and is in shape, hence for every accepted program.
-/

import Shanty.Proofs.Code.Accepted
import Shanty.Proofs.Target.Emission
import Shanty.Proofs.Target.Llvm.Scope

namespace Shanty.Target.Llvm

open Code (Operand Quad Procedure Program Site Pending Label Variable Temp Slot CallPhase Unbroken
  labelsOf slotWidth)

/-! ## Well-formed functions -/

/-- The blocks that the end of a block leads to. -/
def Terminator.targets : Terminator → List String
  | .ret _ => []
  | .jump block => [block]
  | .branch _ ifTrue ifFalse => [ifTrue, ifFalse]

/-- The numbers of the results of some blocks, in their order. -/
def numbersOf (blocks : List Block) : List Nat :=
  blocks.flatMap fun block => block.steps.filterMap (·.number)

/-- A function whose control flow and whose values are well formed. Storage is reserved in its first
block, to which no other one leads. -/
inductive Function.WellFormed (function : Function) : Prop
  | mk {first : Block} {rest : List Block} : function.blocks = first :: rest →
      first.name = "entry" → (function.blocks.map (·.name)).Nodup →
      (∀ block ∈ function.blocks, ∀ target ∈ block.terminator.targets,
        target ∈ rest.map (·.name)) →
      numbersOf function.blocks = List.range (numbersOf function.blocks).length →
      first.Scoped [] →
      (∀ block ∈ rest, block.Scoped (first.steps.filter (·.instr.isAlloca))) →
      Function.WellFormed function

/-! ## Blocks and quads -/

/-- The block with a name begins at a quad that carries a label. -/
def Lands (landings : List Segment) (label : Label) (name : String) : Prop :=
  ∃ segment ∈ landings, segment.name = name ∧
    ∃ quad rest, segment.quads = quad :: rest ∧ label ∈ quad.labels

/-- What ends a block is what its last quad asks for. -/
inductive Closes (landings : List Segment) (next? : Option String) : Code.Instr → Terminator → Prop
  | goto {label : Label} {name : String} :
      Lands landings label name → Closes landings next? (.goto label) (.jump name)
  | ifZero {condition : Operand} {label : Label} {value : Value} {name next : String} :
      Lands landings label name → next? = some next →
      Closes landings next? (.ifZero condition label) (.branch value name next)
  | leave {procedure : String} {value : Option Value} :
      Closes landings next? (.leave procedure) (.ret value)
  | onward {instr : Code.Instr} {next : String} :
      instr.jumpTarget? = none → (∀ procedure, instr ≠ .leave procedure) → next? = some next →
      Closes landings next? instr (.jump next)

/-- Whether an instruction always leads to the next quad. -/
def GoesOn (instr : Code.Instr) : Prop :=
  instr.jumpTarget? = none ∧ ∀ procedure, instr ≠ .leave procedure

/-- The blocks of some segments. Only the last quad of a segment may lead anywhere but to the
next one, and this is where its block leads. -/
inductive Realizes (landings : List Segment) : List Segment → List Block → Prop
  | nil : Realizes landings [] []
  | cons {segment : Segment} {block : Block} {front : List Quad} {last : Quad}
      {segments : List Segment} {blocks : List Block} : block.name = segment.name →
      segment.quads = front ++ [last] → (∀ quad ∈ front, GoesOn quad.instr) →
      Closes landings (segments.head?.map (·.name)) last.instr block.terminator →
      Realizes landings segments blocks →
      Realizes landings (segment :: segments) (block :: blocks)

/-- A function whose blocks are those of the quads of a procedure, and whose jumps lead where the
jumps of the procedure do. -/
structure Function.Follows (procedure : Procedure) (function : Function) : Prop where
  name : function.name = Code.entryLabel procedure.name
  quads : (segments procedure).flatMap (·.quads) = procedure.quads
  blocks : Realizes (segments procedure).tail (segments procedure) function.blocks

/-! ## Segments -/

section Segments

theorem jumpless_split (index : Nat) (afterJump : Bool) (code : List Quad) :
    (∀ quad ∈ (split index afterJump code).1.dropLast, quad.instr.jumpTarget? = none) ∧
      ∀ segment ∈ (split index afterJump code).2, ∀ quad ∈ segment.quads.dropLast,
        quad.instr.jumpTarget? = none := by
  induction code generalizing index afterJump with
  | nil => simp [split]
  | cons quad rest ih =>
      obtain ⟨hgoing, hsegments⟩ := ih (index + 1) quad.instr.jumpTarget?.isSome
      -- A jump is followed by a new block, so that it comes last in its own.
      have hfirst : ∀ other ∈ (quad ::
          (split (index + 1) quad.instr.jumpTarget?.isSome rest).1).dropLast,
            other.instr.jumpTarget? = none := by
        cases hjump : quad.instr.jumpTarget? with
        | some target =>
            have hnil : (split (index + 1) true rest).1 = [] := by
              cases rest <;> simp [split]
            simp [hnil]
        | none =>
            rw [hjump] at hgoing
            generalize (split (index + 1) (none : Option Label).isSome rest).1 = going at hgoing
            cases going with
            | nil => simp
            | cons next going =>
                rw [List.dropLast_cons_cons, List.forall_mem_cons]
                exact ⟨hjump, hgoing⟩
      simp only [split]
      split
      · exact ⟨by simp, List.forall_mem_cons.2 ⟨hfirst, hsegments⟩⟩
      · exact ⟨hfirst, hsegments⟩

/-- A call lies in one block. -/
theorem unbroken_split (index : Nat) (afterJump : Bool) (code : List Quad) {phase : CallPhase}
    (hcode : Unbroken phase code) (hafter : afterJump = true → phase = .idle) :
    Unbroken phase (split index afterJump code).1 ∧
      ∀ segment ∈ (split index afterJump code).2, Unbroken .idle segment.quads := by
  induction code generalizing index afterJump phase with
  | nil => exact ⟨hcode, by simp [split]⟩
  | cons quad rest ih =>
      have hjump : quad.instr.jumpTarget?.isSome = true → quad.instr.phase = .idle := by
        cases quad.instr <;> simp [Code.Instr.jumpTarget?, Code.Instr.phase]
      obtain ⟨hgoing, hsegments⟩ := ih (index + 1) quad.instr.jumpTarget?.isSome hcode.2 hjump
      simp only [split]
      split
      next hstarts =>
        have hidle : phase ≠ .passing ∧ Unbroken .idle (quad :: rest) := by
          by_cases hlabels : quad.labels = []
          · have hphase := hafter (by simpa [hlabels] using hstarts)
            subst hphase
            exact ⟨by simp, hcode⟩
          · exact hcode.idle_of_labels hlabels
        exact ⟨hidle.1, List.forall_mem_cons.2 ⟨⟨hidle.2.1, hgoing⟩, hsegments⟩⟩
      next => exact ⟨⟨hcode.1, hgoing⟩, hsegments⟩

/-- A block but the first is named after its first label or after the place of its first quad, and
begins at the quad with its labels. -/
theorem head_of_mem_split (index : Nat) (afterJump : Bool) (code : List Quad) :
    ∀ segment ∈ (split index afterJump code).2, ∃ quad rest place, index ≤ place ∧
      segment.quads = quad :: rest ∧ segment.labels = quad.labels ∧
      segment.name = blockName quad place := by
  induction code generalizing index afterJump with
  | nil => simp [split]
  | cons quad rest ih =>
      have hrest := ih (index + 1) quad.instr.jumpTarget?.isSome
      have hlater : ∀ segment ∈ (split (index + 1) quad.instr.jumpTarget?.isSome rest).2,
          ∃ quad rest place, index ≤ place ∧ segment.quads = quad :: rest ∧
            segment.labels = quad.labels ∧ segment.name = blockName quad place := by
        intro segment hsegment
        obtain ⟨first, more, place, hplace, hsame⟩ := hrest segment hsegment
        exact ⟨first, more, place, by omega, hsame⟩
      simp only [split]
      split
      · exact List.forall_mem_cons.2 ⟨⟨quad, _, index, Nat.le_refl _, rfl, rfl, rfl⟩, hlater⟩
      · exact hlater

end Segments

/-! ## Names of blocks -/

/-- A block that is named after a label is neither the first one nor named after its place. -/
theorem label_name_ne (label : Label) (place : Nat) :
    label.name ≠ "entry" ∧ label.name ≠ "blk_" ++ toString place := by
  have hlists : label.name.toList ≠ "entry".toList ∧
      label.name.toList ≠ ("blk_" ++ toString place).toList := by
    cases label with
    | entry procedure =>
        by_cases hmain : procedure = "main" <;> simp [Label.name, Code.entryLabel, hmain]
    | numbered number => simp [Label.name]
  exact ⟨fun heq => hlists.1 (congrArg _ heq), fun heq => hlists.2 (congrArg _ heq)⟩

theorem blockName_ne_entry (quad : Quad) (place : Nat) : blockName quad place ≠ "entry" := by
  unfold blockName
  split
  · exact (label_name_ne _ 0).1
  · intro heq
    have htexts := congrArg String.toList heq
    simp at htexts

/-- Blocks that begin at different places have different names unless they share a label. -/
theorem blockName_inj {quad quad' : Quad} {place place' : Nat}
    (hname : blockName quad place = blockName quad' place') :
    place = place' ∨ ∃ label ∈ quad.labels, label ∈ quad'.labels := by
  unfold blockName at hname
  split at hname
  next label _ hlabels =>
    split at hname
    next label' _ hlabels' =>
      right
      refine ⟨label, by simp [hlabels], ?_⟩
      rw [Code.label_eq_of_name_eq hname, hlabels']
      exact List.mem_cons_self
    next => exact absurd hname (label_name_ne label place').2
  next =>
    split at hname
    next label' _ _ => exact absurd hname.symm (label_name_ne label' place).2
    next =>
      left
      exact Code.eq_of_toString_eq ((String.append_right_inj "blk_").1 hname)

theorem nodup_names_split (index : Nat) (afterJump : Bool) (code : List Quad)
    (hlabels : (labelsOf code).Nodup) :
    ((split index afterJump code).2.map (·.name)).Nodup := by
  induction code generalizing index afterJump with
  | nil => exact .nil
  | cons quad rest ih =>
      rw [Code.labelsOf_cons, List.nodup_append] at hlabels
      have hrest := ih (index + 1) quad.instr.jumpTarget?.isSome hlabels.2.1
      simp only [split]
      split
      · rw [List.map_cons, List.nodup_cons]
        refine ⟨?_, hrest⟩
        intro hmem
        obtain ⟨segment, hsegment, hname⟩ := List.mem_map.1 hmem
        obtain ⟨first, more, place, hplace, _, hsame, hnamed⟩ :=
          head_of_mem_split _ _ _ segment hsegment
        rcases blockName_inj (hnamed.symm.trans hname) with heq | ⟨label, hfirst, hquad⟩
        · omega
        · -- A label of a later block is not one of the first quad.
          refine hlabels.2.2 label hquad label ?_ rfl
          rw [← labels_split (index + 1) quad.instr.jumpTarget?.isSome, List.mem_flatMap]
          exact ⟨segment, hsegment, hsame ▸ hfirst⟩
      · exact hrest

section Procedures

variable {procedure : Procedure}

theorem segments_eq (procedure : Procedure) :
    segments procedure = ⟨"entry", [], procedure.enterQuad :: (split 1 false procedure.tail).1⟩ ::
      (split 1 false procedure.tail).2 :=
  rfl

theorem nodup_names_segments (hlabels : (labelsOf procedure.quads).Nodup) :
    ((segments procedure).map (·.name)).Nodup := by
  rw [segments_eq, List.map_cons, List.nodup_cons]
  refine ⟨?_, nodup_names_split _ _ _ ?_⟩
  · intro hmem
    obtain ⟨segment, hsegment, hname⟩ := List.mem_map.1 hmem
    obtain ⟨quad, _, place, _, _, _, hnamed⟩ := head_of_mem_split _ _ _ segment hsegment
    exact blockName_ne_entry quad place (hnamed.symm.trans hname)
  · rw [show procedure.quads = procedure.enterQuad :: procedure.tail from rfl,
      Code.labelsOf_cons] at hlabels
    exact (List.nodup_append.1 hlabels).2.1

/-- Each block is one stretch of a procedure in which calls are in one piece. -/
theorem unbroken_segments (hshaped : Unbroken .idle procedure.quads) :
    ∀ segment ∈ segments procedure, Unbroken .idle segment.quads := by
  have htail : Unbroken .idle procedure.tail := hshaped.2
  obtain ⟨hgoing, hrest⟩ := unbroken_split 1 false procedure.tail htail (by simp)
  rw [segments_eq, List.forall_mem_cons]
  exact ⟨⟨hshaped.1, hgoing⟩, hrest⟩

/-- All quads of a block but the last lead to the next quad. -/
theorem goesOn_of_mem_segments (hinner : ∀ quad ∈ procedure.body, quad.instr.Inner)
    {segment : Segment} (hsegment : segment ∈ segments procedure) :
    ∀ quad ∈ segment.quads.dropLast, GoesOn quad.instr := by
  obtain ⟨hgoing, hrest⟩ := jumpless_split 1 false procedure.tail
  have hjump : ∀ segment ∈ segments procedure, ∀ quad ∈ segment.quads.dropLast,
      quad.instr.jumpTarget? = none := by
    rw [segments_eq, List.forall_mem_cons]
    refine ⟨?_, hrest⟩
    generalize (split 1 false procedure.tail).1 = going at hgoing
    cases going with
    | nil => simp
    | cons next going =>
        rw [List.dropLast_cons_cons, List.forall_mem_cons]
        exact ⟨rfl, hgoing⟩
  -- The procedure is left by its last quad only, which comes last in its block.
  have hleave : ∀ quad ∈ procedure.quads.dropLast, ∀ name, quad.instr ≠ .leave name := by
    intro quad hquad name heq
    rw [Procedure.quads, ← List.cons_append, List.dropLast_concat] at hquad
    rcases List.mem_cons.1 hquad with rfl | hbody
    · cases heq
    · have hinner := hinner quad hbody
      rw [heq] at hinner
      exact hinner
  intro quad hquad
  refine ⟨hjump segment hsegment quad hquad, hleave quad ?_⟩
  obtain ⟨front, back, hsplit⟩ := List.append_of_mem hsegment
  have hquads := quads_segments procedure
  rw [hsplit, List.flatMap_append, List.flatMap_cons] at hquads
  rw [← hquads]
  have hne := quads_ne_nil_of_mem_segments procedure segment hsegment
  rw [List.dropLast_append_of_ne_nil (by simp [hne]), List.mem_append]
  right
  rcases List.eq_nil_or_concat (back.flatMap (·.quads)) with hnil | ⟨more, last, hconcat⟩
  · rw [hnil, List.append_nil]
    exact hquad
  · rw [hconcat, List.concat_eq_append, ← List.append_assoc, List.dropLast_concat]
    exact List.mem_append_left _ (List.dropLast_subset _ hquad)

/-- A jump is led to the block that begins at its label. -/
theorem lands_of_blockOf {env : Env} (hblocks : env.blocks = labelBlocks (segments procedure))
    {label : Label} {name : String} (hblock : env.blockOf label = .ok name) :
    Lands (segments procedure).tail label name := by
  unfold Env.blockOf at hblock
  split at hblock
  next found hlookup =>
    cases hblock
    obtain ⟨front, back, hentries, _⟩ := List.lookup_eq_some_iff.1 hlookup
    have hmem : (label, name) ∈ labelBlocks (segments procedure) := by
      rw [← hblocks, ← List.mem_reverse, hentries]
      simp
    obtain ⟨segment, hsegment, hlabel⟩ := List.mem_flatMap.1 hmem
    obtain ⟨label', hlabel', hpair⟩ := List.mem_map.1 hlabel
    cases hpair
    rcases List.mem_cons.1 (segments_eq procedure ▸ hsegment) with rfl | hsegment
    · cases hlabel'
    · obtain ⟨quad, rest, _, _, hquads, hlabels, _⟩ := head_of_mem_split _ _ _ segment hsegment
      exact ⟨segment, hsegment, rfl, quad, rest, hquads, hlabels ▸ hlabel'⟩
  next => cases hblock

end Procedures

/-! ## Blocks -/

section Blocks

variable {signatures : List Signature} {labels : List Label} {site : Site} {env : Env}
  {before after : Pending} {builder : Builder} {reserved : List Step} {start : Nat} {phase : CallPhase}
  {landings : List Segment}

/-- The code of a block is written up to its end. -/
structure Written (env : Env) (reserved : List Step) (start : Nat) (builder : Builder)
    (answer : Terminator × Builder) : Prop where
  serving : env.Serving reserved start answer.2
  written : builder.written <+: answer.2.written
  args : answer.2.args = []
  terminator : ∀ value ∈ answer.1.operands, answer.2.Has reserved value

/-- A result that is fetched is there. -/
theorem last_ne_void (hholds : builder.Holds signatures before) {quad : Code.Instr}
    (hfits : site.Fits labels before quad after) (hfetch : quad.isGetRet = true) :
    ∀ value ∈ builder.last?, (value.type != .void) = true := by
  cases hfits with
  | @getRet temp type hlast hstorable =>
      obtain ⟨value, hvalue, htype⟩ := hholds.last type hlast
      intro other hother
      obtain rfl : value = other := by simpa [hvalue] using hother
      rw [htype, bne, ofTy_beq_void hstorable]
      rfl
  | _ => cases hfetch

/-- The last quad of a block. -/
theorem finish_ensures (hblocks : ∀ label name, env.blockOf label = .ok name →
      Lands landings label name)
    (hserving : env.Serving reserved start builder) (hkeeps : builder.Keeps reserved phase)
    {quad : Quad} (hadmits : phase.Admits quad) (hlast : quad.instr.isGetRet = true →
      ∀ value ∈ builder.last?, (value.type != .void) = true)
    (hphase : quad.instr.phase ≠ .passing) {next? : Option String} :
    Ensures (finish env next? builder quad.instr) (fun answer =>
      Written env reserved start builder answer ∧ Closes landings next? quad.instr answer.1) := by
  have hinstr := instr_ensures hserving hkeeps hadmits hlast
  have hnone : quad.instr.phase = .idle → builder.args = [] := fun hidle =>
    hkeeps.idle fun hpassing => (hadmits.passing hpassing).2 hidle
  have honward : GoesOn quad.instr →
      (finish env next? builder quad.instr = do
        let builder ← instr env builder quad.instr
        next?.elim (.error (.crash "missing terminator in basic block"))
          fun next => return (.jump next, builder)) →
      Ensures (finish env next? builder quad.instr) (fun answer =>
        Written env reserved start builder answer ∧ Closes landings next? quad.instr answer.1) := by
    intro hgoes heq
    rw [heq]
    refine hinstr.bind fun after hafter => ?_
    cases next? with
    | none => exact .error
    | some next => exact .pure ⟨⟨hafter.serving, hafter.written,
        hafter.keeps.idle hphase, by simp [Terminator.operands]⟩,
        .onward hgoes.1 hgoes.2 rfl⟩
  cases hquad : quad.instr with
  | goto label =>
      intro answer hrun
      obtain ⟨name, hname, hrun⟩ := exists_of_bind_eq_ok hrun
      cases hrun
      exact ⟨⟨hserving, List.prefix_refl _, hnone (by rw [hquad]; rfl), by simp [Terminator.operands]⟩,
        .goto (hblocks label name hname)⟩
  | ifZero condition label =>
      simp only [finish]
      cases next? with
      | none => exact .error
      | some next =>
          refine (hserving.load_ensures condition).bind fun value hvalue => ?_
          intro answer hrun
          obtain ⟨name, hname, hrun⟩ := exists_of_bind_eq_ok hrun
          cases hrun
          have hbit := hvalue.trans (Builder.push_answers hvalue.adds.sound
            (.compare .eq value.1 (.word 0)) rfl (by
              simp only [Instr.operands, List.forall_mem_cons]
              exact ⟨hvalue.has, has_word 0, by simp⟩))
          exact ⟨⟨hserving.adds hbit.adds, hbit.adds.written,
            hbit.adds.args.trans (hnone (by rw [hquad]; rfl)),
            List.forall_mem_singleton.2 hbit.has⟩, .ifZero (hblocks label name hname) rfl⟩
  | leave procedure =>
      have hargs := hnone (by rw [hquad]; rfl)
      simp only [finish]
      cases hplace : env.result? with
      | none =>
          exact .ok ⟨⟨hserving, List.prefix_refl _, hargs, by simp [Terminator.operands]⟩, .leave⟩
      | some place =>
          obtain ⟨hhas, hresult⟩ := hserving.grounded.place place (by simp [hplace])
          have hvalue := Builder.push_answers hserving.sound (.load env.function.result place)
            hresult (List.forall_mem_singleton.2 hhas)
          exact .ok ⟨⟨hserving.adds hvalue.adds, hvalue.adds.written, hvalue.adds.args.trans hargs,
            List.forall_mem_singleton.2 hvalue.has⟩, .leave⟩
  | _ =>
      rw [hquad] at honward
      exact honward ⟨rfl, by simp⟩ (by cases next? <;> rfl)

/-- The quads of a block become the code of a block. -/
theorem quads_ensures (hserves : env.Serves signatures labels site)
    (hblocks : ∀ label name, env.blockOf label = .ok name → Lands landings label name)
    {code : List Quad} {last : Quad} (hlast : code.getLast? = some last)
    (hholds : builder.Holds signatures before) (hall : site.AllFit labels before code after)
    (hunbroken : Unbroken phase code) (hserving : env.Serving reserved start builder)
    (hkeeps : builder.Keeps reserved phase) {next? : Option String} :
    Ensures (quads env next? builder code) (fun answer =>
      Written env reserved start builder answer ∧ Closes landings next? last.instr answer.1) := by
  induction code generalizing builder before phase with
  | nil => cases hlast
  | cons quad rest ih =>
      cases hall with
      | cons hfits hrest =>
          have hfetch := last_ne_void hholds hfits
          cases rest with
          | nil =>
              cases hlast
              exact finish_ensures hblocks hserving hkeeps hunbroken.1 hfetch hunbroken.2
          | cons next rest =>
              rw [List.getLast?_cons_cons] at hlast
              have hinstr := instr_ensures hserving hkeeps hunbroken.1 hfetch
              obtain ⟨middle, hrun, hholds'⟩ := instr_yields hserves hholds hfits
              have hmiddle := hinstr middle hrun
              simp only [quads, hrun, Code.Lowering.ok_bind]
              intro answer hanswer
              obtain ⟨hwritten, hcloses⟩ :=
                ih hlast hholds' hrest hunbroken.2 hmiddle.serving hmiddle.keeps answer hanswer
              exact ⟨⟨hwritten.serving, hmiddle.written.trans hwritten.written, hwritten.args,
                hwritten.terminator⟩, hcloses⟩

/-- The numbers of the results of a block and of what comes after it. -/
theorem range'_append {start middle stop : Nat} (hstart : start ≤ middle) (hstop : middle ≤ stop) :
    List.range' start (middle - start) ++ List.range' middle (stop - middle) =
      List.range' start (stop - start) := by
  have hmiddle : middle = start + 1 * (middle - start) := by omega
  have hlength : stop - start = (middle - start) + (stop - middle) := by omega
  rw [hlength, ← List.range'_append, ← hmiddle]

/-- What is expected of some blocks. -/
structure Fitted (landings : List Segment) (reserved : List Step) (start : Nat)
    (segments : List Segment) (answer : List Block × Builder) : Prop where
  realizes : Realizes landings segments answer.1
  scope : ∀ block ∈ answer.1, block.Scoped reserved
  numbers : numbersOf answer.1 = List.range' start (answer.2.next - start)
  start_le : start ≤ answer.2.next
  args : answer.2.args = []

theorem Written.block_scoped {answer : Terminator × Builder}
    (hwritten : Written env reserved start builder answer)
    (name : String) : Block.Scoped reserved ⟨name, answer.2.steps.reverse, answer.1⟩ :=
  ⟨hwritten.serving.sound.scope, hwritten.terminator⟩

/-- A builder that starts a block with nothing pending. -/
theorem Builder.fresh_keeps (hargs : builder.args = []) : builder.Keeps reserved .idle :=
  ⟨by simp [hargs], fun _ => hargs, nofun⟩

theorem Env.Grounded.serving {reserved : List Step} (hgrounded : env.Grounded reserved)
    (builder : Builder) : env.Serving reserved builder.next { builder with steps := [] } := by
  refine ⟨⟨?_, by simp [Builder.written], Nat.le_refl _⟩, ?_⟩
  · intro front step back heq
    simp [Builder.written] at heq
  · simpa [Builder.written] using hgrounded

/-- Segments become blocks, each of which starts with nothing but what is reserved. -/
theorem blocks_ensures (hserves : env.Serves signatures labels site)
    (hblocks : ∀ label name, env.blockOf label = .ok name → Lands landings label name)
    {segments : List Segment} (hne : ∀ segment ∈ segments, segment.quads ≠ [])
    (hgoes : ∀ segment ∈ segments, ∀ quad ∈ segment.quads.dropLast, GoesOn quad.instr)
    (hunbroken : ∀ segment ∈ segments, Unbroken .idle segment.quads)
    (hleave : ∀ segment last, segments.getLast? = some segment →
      segment.quads.getLast? = some last → ∃ name, last.instr = .leave name)
    (hholds : builder.Holds signatures before)
    (hall : site.AllFit labels before (segments.flatMap (·.quads)) after)
    (hgrounded : env.Grounded reserved) (hsteps : builder.steps = []) (hargs : builder.args = []) :
    Ensures (blocks env builder segments) (Fitted landings reserved builder.next segments) := by
  induction segments generalizing builder before with
  | nil => exact .ok ⟨.nil, by simp, by simp [numbersOf], Nat.le_refl _, hargs⟩
  | cons segment rest ih =>
      rw [List.forall_mem_cons] at hne hgoes hunbroken
      obtain ⟨middle, hfirst, hrest⟩ := hall.exists_of_append
      obtain ⟨last, hlast⟩ := Option.isSome_iff_exists.1 (List.getLast?_isSome.2 hne.1)
      have hnext : (∃ procedure, last.instr = .leave procedure) ∨
          (rest.head?.map (·.name)).isSome = true := by
        cases rest with
        | nil => exact .inl (hleave segment last rfl hlast)
        | cons => exact .inr rfl
      have hleave' : ∀ segment last, rest.getLast? = some segment →
          segment.quads.getLast? = some last → ∃ name, last.instr = .leave name := by
        intro other last hother
        refine hleave other last ?_
        rw [List.getLast?_cons, hother, Option.getD_some]
      obtain ⟨front, hfront⟩ := List.getLast?_eq_some_iff.1 hlast
      have hserving : env.Serving reserved builder.next builder := by
        have hfresh := hgrounded.serving builder
        rwa [← hsteps] at hfresh
      obtain ⟨answer, hrun, hends⟩ := quads_yields hserves hlast hnext hholds hfirst
      obtain ⟨hwritten, hcloses⟩ := quads_ensures hserves hblocks hlast hholds hfirst hunbroken.1
        hserving (Builder.fresh_keeps hargs) answer hrun
      simp only [blocks, hrun, Code.Lowering.ok_bind]
      refine (ih hne.2 hgoes.2 hunbroken.2 hleave' (hends.2.renew answer.2.next) hrest rfl
        hwritten.args).bind fun more hmore => .pure ?_
      have hgoes' := hgoes.1
      rw [hfront, List.dropLast_concat] at hgoes'
      refine ⟨.cons rfl hfront hgoes' hcloses hmore.realizes,
        List.forall_mem_cons.2 ⟨hwritten.block_scoped _, hmore.scope⟩, ?_,
        Nat.le_trans hwritten.serving.sound.start_le hmore.start_le, hmore.args⟩
      have hnumbers := hwritten.serving.sound.numbers
      rw [numbersOf, List.flatMap_cons]
      refine Eq.trans ?_ (range'_append hwritten.serving.sound.start_le hmore.start_le)
      exact congrArg₂ (· ++ ·) hnumbers hmore.numbers

end Blocks

/-! ## Functions -/

section Functions

variable {program : Program} {functions : List (String × Function)} {procedure : Procedure}
  {strings : List IrType} {function : Function} {builder : Builder} {start : Nat}

/-- Nothing but storage has been reserved so far. -/
def Builder.Reserves (start : Nat) (builder : Builder) : Prop :=
  builder.Sound [] start ∧ ∀ step ∈ builder.written, step.instr.isAlloca = true

theorem Builder.Reserves.push (hreserves : builder.Reserves start) (type : IrType) :
    (builder.push (.alloca type)).2.Reserves start ∧
      builder.Adds [] start (builder.push (.alloca type)).2 ∧
      (builder.push (.alloca type)).2.Has [] (builder.push (.alloca type)).1 := by
  have hanswers := Builder.push_answers hreserves.1 (.alloca type) rfl (by simp [Instr.operands])
  refine ⟨⟨hanswers.adds.sound, ?_⟩, hanswers.adds, hanswers.has⟩
  have hwritten : (builder.push (.alloca type)).2.written =
      builder.written ++ [⟨some builder.next, .alloca type⟩] := by
    simp [Builder.push, Builder.written, Instr.hasResult, Instr.type, bne, BEq.beq, IrType.same]
  rw [hwritten, List.forall_mem_append, List.forall_mem_singleton]
  exact ⟨hreserves.2, rfl⟩

theorem Builder.Reserves.reserve (hreserves : builder.Reserves start)
    (places : List (Slot × IrType)) :
    (Llvm.reserve builder places).2.Reserves start ∧
      builder.Adds [] start (Llvm.reserve builder places).2 ∧
      (∀ entry ∈ (Llvm.reserve builder places).1,
        (Llvm.reserve builder places).2.Has [] entry.2) ∧
      (Llvm.reserve builder places).2.args = builder.args := by
  induction places generalizing builder with
  | nil => exact ⟨hreserves, .refl hreserves.1, by simp [Llvm.reserve], rfl⟩
  | cons place places ih =>
      obtain ⟨hpush, hadds, hhas⟩ := hreserves.push place.2
      obtain ⟨hrest, hadds', hentries, hargs⟩ := ih hpush
      refine ⟨hrest, hadds.trans hadds', List.forall_mem_cons.2 ⟨hadds'.has hhas, hentries⟩, ?_⟩
      exact hargs.trans hadds.args

/-- The place for the result of a function is reserved behind the storage of its procedure. -/
theorem Builder.Reserves.result (hreserves : builder.Reserves start) {place? : Option Value}
    {after : Builder}
    (hresult : (if function.result == .void then (none, builder)
      else (some (builder.push (.alloca function.result)).1,
        (builder.push (.alloca function.result)).2)) = (place?, after)) :
    after.Reserves start ∧ builder.Adds [] start after ∧
      ∀ place ∈ place?, after.Has [] place ∧ (function.result != .void) = true := by
  split at hresult
  next => cases hresult; exact ⟨hreserves, .refl hreserves.1, by simp⟩
  next hne =>
    cases hresult
    obtain ⟨hpush, hadds, hhas⟩ := hreserves.push function.result
    refine ⟨hpush, hadds, ?_⟩
    rintro place ⟨⟩
    exact ⟨hhas, by simpa [bne] using hne⟩

/-- The results of a function whose parameters have names are numbered from zero on. -/
theorem nextNumber_eq_zero (hempty : function.blocks = [])
    (hparams : ∀ param ∈ function.params, param.DefinedBy []) : function.nextNumber = 0 := by
  rw [Function.nextNumber, hempty, List.foldr_nil, Nat.add_zero, List.countP_eq_zero]
  intro param hparam
  cases param with
  | numbered number type => obtain ⟨_, hmem, _⟩ := hparams _ hparam number type rfl; cases hmem
  | _ => simp

theorem Realizes.names {landings segments : List Segment} {blocks : List Block}
    (hrealizes : Realizes landings segments blocks) :
    blocks.map (·.name) = segments.map (·.name) := by
  induction hrealizes with
  | nil => rfl
  | cons hname _ _ _ _ ih => rw [List.map_cons, List.map_cons, hname, ih]

theorem Closes.targets {landings : List Segment} {next? : Option String} {instr : Code.Instr}
    {terminator : Terminator} (hcloses : Closes landings next? instr terminator)
    (hnext : ∀ next ∈ next?, next ∈ landings.map (·.name)) :
    ∀ target ∈ terminator.targets, target ∈ landings.map (·.name) := by
  have hlands : ∀ {label name}, Lands landings label name → name ∈ landings.map (·.name) := by
    rintro label name ⟨segment, hsegment, rfl, _⟩
    exact List.mem_map_of_mem hsegment
  cases hcloses with
  | goto hland => exact List.forall_mem_singleton.2 (hlands hland)
  | ifZero hland hsome =>
      simp only [Terminator.targets, List.forall_mem_cons]
      exact ⟨hlands hland, hnext _ hsome, by simp⟩
  | leave => simp [Terminator.targets]
  | onward _ _ hsome => exact List.forall_mem_singleton.2 (hnext _ hsome)

/-- Blocks lead to blocks with a landing, if those behind the first are among them. -/
theorem Realizes.targets {landings segments : List Segment} {blocks : List Block}
    (hrealizes : Realizes landings segments blocks) (hsubset : segments.tail ⊆ landings) :
    ∀ block ∈ blocks, ∀ target ∈ block.terminator.targets, target ∈ landings.map (·.name) := by
  induction hrealizes with
  | nil => simp
  | @cons segment _ _ _ segments _ _ _ _ hcloses _ ih =>
      rw [List.forall_mem_cons]
      refine ⟨hcloses.targets ?_, ih fun other hother => hsubset (List.mem_of_mem_tail hother)⟩
      intro next hnext
      obtain ⟨other, hother, rfl⟩ := Option.map_eq_some_iff.1 hnext
      exact List.mem_map_of_mem (hsubset (List.mem_of_mem_head? hother))

theorem Block.Scoped.mono {reserved reserved' : List Step} (hsubset : reserved ⊆ reserved')
    {block : Block} (hscoped : block.Scoped reserved) : block.Scoped reserved' where
  steps front step back heq value hvalue :=
    (hscoped.steps front step back heq value hvalue).mono
      (List.append_subset.2 ⟨List.Subset.trans hsubset (List.subset_append_left _ _),
        List.subset_append_right _ _⟩)
  terminator value hvalue := (hscoped.terminator value hvalue).mono
    (List.append_subset.2 ⟨List.Subset.trans hsubset (List.subset_append_left _ _),
        List.subset_append_right _ _⟩)

/-- The blocks of a procedure make up a well-formed function. -/
theorem segments_ensures {signatures : List Signature} {env : Env}
    (hserves : env.Serves signatures (labelsOf procedure.tail) (program.site procedure))
    (hblocks : env.blocks = labelBlocks (segments procedure))
    (hname : function.name = Code.entryLabel procedure.name)
    (hfitting : procedure.Fitting program) (hshaped : procedure.Shaped program)
    (hreserves : builder.Reserves 0) (hgrounded : env.Grounded builder.written)
    (hholds : builder.Holds signatures {}) (hargs : builder.args = []) :
    Ensures (blocks env builder (segments procedure)) (fun answer =>
      Function.WellFormed { function with blocks := answer.1 } ∧
        Function.Follows procedure { function with blocks := answer.1 } ∧ answer.2.args = []) := by
  have hlands := fun label name => @lands_of_blockOf procedure env hblocks label name
  have hunbroken := unbroken_segments hshaped.unbroken
  have hgoes := fun segment => @goesOn_of_mem_segments procedure hshaped.inner segment
  have hne := quads_ne_nil_of_mem_segments procedure
  have hleave := fun segment last => @exists_leave_of_getLast?_segments procedure segment last
  have hlabels := nodup_names_segments hshaped.labels
  have hquads := quads_segments procedure
  obtain ⟨_, hall⟩ := hfitting.quads_fit
  rw [← hquads] at hall
  have hfollows : ∀ blocks, Realizes (segments procedure).tail (segments procedure) blocks →
      Function.Follows procedure { function with blocks } :=
    fun _ hrealizes => ⟨hname, hquads, hrealizes⟩
  obtain ⟨rest, hsegments⟩ : ∃ rest, segments procedure =
      ⟨"entry", [], procedure.enterQuad :: (split 1 false procedure.tail).1⟩ :: rest := ⟨_, rfl⟩
  generalize procedure.enterQuad :: (split 1 false procedure.tail).1 = opening at hsegments
  rw [hsegments] at hlands hunbroken hgoes hne hleave hlabels hall hfollows ⊢
  rw [List.forall_mem_cons] at hunbroken hne
  simp only [List.mem_cons, forall_eq_or_imp] at hgoes
  obtain ⟨middle, hfirst, hrest⟩ := hall.exists_of_append
  obtain ⟨last, hlast⟩ := Option.isSome_iff_exists.1 (List.getLast?_isSome.2 hne.1)
  obtain ⟨front, hfront⟩ := List.getLast?_eq_some_iff.1 hlast
  have hnext : (∃ procedure, last.instr = .leave procedure) ∨
      (rest.head?.map (·.name)).isSome = true := by
    cases rest with
    | nil => exact .inl (hleave _ last rfl hlast)
    | cons => exact .inr rfl
  have hleave' : ∀ segment last, rest.getLast? = some segment →
      segment.quads.getLast? = some last → ∃ name, last.instr = .leave name := by
    intro other last hother
    refine hleave other last ?_
    rw [List.getLast?_cons, hother, Option.getD_some]
  obtain ⟨answer, hrun, hends⟩ := quads_yields hserves hlast hnext hholds hfirst
  obtain ⟨hwritten, hcloses⟩ := quads_ensures hserves hlands hlast hholds hfirst hunbroken.1
    ⟨hreserves.1, hgrounded⟩ (Builder.fresh_keeps hargs) answer hrun
  simp only [blocks, hrun, Code.Lowering.ok_bind]
  refine (blocks_ensures hserves hlands hne.2 hgoes.2 hunbroken.2 hleave'
    (hends.2.renew answer.2.next) hrest hgrounded rfl hwritten.args).bind fun more hmore => .pure ?_
  have hfrontGoes : ∀ quad ∈ front, GoesOn quad.instr := by
    have hopening : opening = front ++ [last] := hfront
    have hopens := hgoes.1
    rwa [hopening, List.dropLast_concat] at hopens
  have hrealizes : Realizes rest (⟨"entry", [], opening⟩ :: rest)
      (⟨"entry", answer.2.steps.reverse, answer.1⟩ :: more.1) :=
    .cons rfl hfront hfrontGoes hcloses hmore.realizes
  have hallocas : builder.written ⊆ answer.2.written.filter (·.instr.isAlloca) := by
    intro step hstep
    exact List.mem_filter.2 ⟨hwritten.written.subset hstep, hreserves.2 step hstep⟩
  refine ⟨.mk rfl rfl (hrealizes.names ▸ hlabels) ?_ ?_ (hwritten.block_scoped _) ?_,
    hfollows _ hrealizes, hmore.args⟩
  · rw [hmore.realizes.names]
    exact hrealizes.targets (List.Subset.refl _)
  · have hnumbers : numbersOf (⟨"entry", answer.2.steps.reverse, answer.1⟩ :: more.1) =
        List.range' 0 (more.2.next - 0) := by
      refine Eq.trans ?_ (range'_append hwritten.serving.sound.start_le hmore.start_le)
      exact congrArg₂ (· ++ ·) hwritten.serving.sound.numbers hmore.numbers
    rw [hnumbers, List.length_range', List.range_eq_range']
  · exact fun block hblock => (hmore.scope block hblock).mono hallocas

theorem body_ensures (hnames : (program.procedures.map (·.name)).Nodup)
    (hfitting : procedure.Fitting program) (hshaped : procedure.Shaped program)
    (hdeclares : Declares program functions)
    (hstrings : ∀ index < program.strings.length,
      ∃ length, strings.getD index .void = .array length (.int 8))
    (htyping : function.typing = typingOf procedure) (hempty : function.blocks = [])
    (hparams : ∀ param ∈ function.params, param.DefinedBy [])
    (hholds : builder.Holds (signaturesOf program) {}) (hargs : builder.args = []) :
    Ensures (body { program, strings, functions := functions.reverse, function } builder procedure)
      (fun answer => answer.1.WellFormed ∧ answer.1.Follows procedure ∧ answer.2.args = []) := by
  have hstart := hholds.renew function.nextNumber
  have hreserve := (reserve_holds hstart (storage procedure)).2
  obtain ⟨place?, after, hresult, hafter, hplace⟩ :=
    resultPlace_gives hreserve hfitting.result (typing_eq_iff.1 htyping).2.1
  have hserves := serves_body hnames hdeclares hstrings htyping
    (fun _ _ => exists_lookup_reserve hfitting hstart) hplace
  -- What is written before the first quad reserves storage and nothing else.
  have hnothing : Builder.Reserves 0 { builder with next := function.nextNumber, steps := [] } := by
    refine ⟨⟨?_, ?_, Nat.zero_le _⟩, by simp [Builder.written]⟩
    · intro front step back heq
      simp [Builder.written] at heq
    · simp [Builder.written, nextNumber_eq_zero hempty hparams]
  obtain ⟨hslots, _, hpointers, hargsSlots⟩ := hnothing.reserve (storage procedure)
  obtain ⟨hreserves, hadds, hkept⟩ := hslots.result hresult
  simp only [body, hresult, hempty, List.nil_append]
  refine (segments_ensures hserves rfl (typing_eq_iff.1 htyping).1 hfitting hshaped hreserves
    ⟨?_, hkept, ?_⟩ hafter
    (hadds.args.trans (hargsSlots.trans hargs))).bind fun answer hanswer => .pure hanswer
  · exact fun entry hentry => hadds.has (hpointers entry hentry)
  · exact fun param hparam => (hparams param hparam).mono (List.nil_subset _)

end Functions

/-! ## Modules -/

section Modules

variable {program : Program} {strings : List IrType} {builder : Builder}

/-- Parameters that have names are not numbered. -/
theorem params_ensures {formals : List Variable} (hnamed : ∀ formal ∈ formals, formal.name ≠ "")
    (unnamed : Nat) (types : List IrType) :
    Ensures (params unnamed types formals) (fun values =>
      ∀ value ∈ values, value.DefinedBy []) := by
  induction types generalizing formals with
  | nil => exact .ok (by simp)
  | cons type types ih =>
      cases formals with
      | nil => exact .error
      | cons formal formals =>
          rw [List.forall_mem_cons] at hnamed
          simp only [params, if_neg hnamed.1]
          refine (ih hnamed.2).bind fun values hvalues => .pure ?_
          exact List.forall_mem_cons.2 ⟨nofun, hvalues⟩

/-- A function that is declared for a procedure and has no body yet. -/
def Awaits (procedure : Procedure) (entry : String × Function) : Prop :=
  entry.1 = procedure.name ∧ entry.2.blocks = [] ∧ ∀ param ∈ entry.2.params, param.DefinedBy []

/-- A function that has got the body of a procedure. -/
def Defines (procedure : Procedure) (entry : String × Function) : Prop :=
  entry.1 = procedure.name ∧ entry.2.WellFormed ∧ entry.2.Follows procedure

theorem signature_ensures {procedure : Procedure} (hshaped : procedure.Shaped program) :
    Ensures (do return (procedure.name, ← signature procedure)) (Awaits procedure) := by
  have hnamed : ∀ formal ∈ procedure.formals, formal.name ≠ "" := by
    obtain ⟨symbols, hnamed, hformals, _⟩ := hshaped.formals
    rw [hformals, List.forall_mem_map]
    exact fun symbol hsymbol => (hnamed symbol hsymbol).ne_empty
  intro entry hrun
  obtain ⟨function, hfunction, hrun⟩ := exists_of_bind_eq_ok hrun
  obtain ⟨values, hvalues, hfunction⟩ := exists_of_bind_eq_ok hfunction
  cases hrun
  cases hfunction
  exact ⟨rfl, rfl, params_ensures hnamed _ _ values hvalues⟩

/-- The only function under a name is replaced where it stands. -/
theorem replaceLast_append {name : String} {function function' : Function}
    {front back : List (String × Function)} (hfront : name ∉ front.map (·.1))
    (hback : name ∉ back.map (·.1)) :
    replaceLast name function (front ++ (name, function') :: back) =
      front ++ (name, function) :: back := by
  induction front with
  | nil =>
      have hnone : back.any (·.1 = name) = false := by
        rw [List.any_eq_false]
        intro entry hentry heq
        exact hback (List.mem_map.2 ⟨entry, hentry, by simpa using heq⟩)
      simp [replaceLast, hnone]
  | cons entry front ih =>
      rw [List.map_cons, List.mem_cons, not_or] at hfront
      simp only [List.cons_append, replaceLast]
      rw [if_neg (by simp [Ne.symm hfront.1]), ih hfront.2]

/-- The functions of a program get well-formed bodies, one after the other. -/
theorem bodies_ensures (hnames : (program.procedures.map (·.name)).Nodup)
    (hstrings : ∀ index < program.strings.length,
      ∃ length, strings.getD index .void = .array length (.int 8))
    {procedures : List Procedure} {front back : List (String × Function)}
    (hsubset : procedures ⊆ program.procedures)
    (hfitting : ∀ procedure ∈ procedures, procedure.Fitting program)
    (hshaped : ∀ procedure ∈ procedures, procedure.Shaped program)
    (hdeclares : Declares program (front ++ back)) (hawaits : List.Forall₂ Awaits procedures back)
    (hholds : builder.Holds (signaturesOf program) {}) (hargs : builder.args = []) :
    Ensures (bodies program strings (front ++ back) builder procedures) (fun functions =>
      ∃ defined, functions = front ++ defined ∧ List.Forall₂ Defines procedures defined) := by
  induction hawaits generalizing front builder with
  | nil => exact .ok ⟨[], rfl, .nil⟩
  | @cons procedure entry rest back hfirst _ ih =>
      rw [List.forall_mem_cons] at hfitting hshaped
      rw [List.cons_subset] at hsubset
      obtain ⟨name, function⟩ := entry
      obtain ⟨rfl, hempty, hparams⟩ := hfirst
      -- Each name is listed once, so the procedure finds its own function and replaces it.
      have hkeys : ((front ++ (procedure.name, function) :: back).map (·.1)).Nodup := by
        have hkeys := congrArg (List.map (·.1)) hdeclares
        simp only [List.map_map, Function.comp_def] at hkeys
        exact hkeys ▸ hnames
      obtain ⟨found, hlookup, hmem, htyping⟩ := hdeclares.exists_lookup hnames hsubset.1
      obtain rfl : found = function := by
        have hsame := List.inj_on_of_nodup_map hkeys hmem
          (List.mem_append_right _ List.mem_cons_self) rfl
        exact congrArg (·.2) hsame
      obtain ⟨answer, hrun, hcompletes⟩ := body_yields hnames hfitting.1 hdeclares hstrings htyping
        (Function.typed_of_blocks_eq_nil hempty) hholds
      obtain ⟨hformed, hfollows, hidle⟩ := body_ensures hnames hfitting.1 hshaped.1 hdeclares
        hstrings htyping hempty hparams hholds hargs answer hrun
      rw [List.map_append, List.map_cons, List.nodup_append, List.nodup_cons] at hkeys
      have hreplace := @replaceLast_append procedure.name answer.1 found front back
        (fun hmem => hkeys.2.2 _ hmem _ List.mem_cons_self rfl) hkeys.2.1.1
      have hdeclares' : Declares program (front ++ [(procedure.name, answer.1)] ++ back) := by
        rw [List.append_assoc, List.singleton_append, ← hreplace]
        refine (map_replaceLast fun other hother => ?_).trans hdeclares
        rw [hdeclares.typing_eq hnames hsubset.1 hother, hcompletes.1]
      simp only [bodies, hlookup, hrun, Code.Lowering.ok_bind, hreplace]
      intro functions hfunctions
      rw [show front ++ (procedure.name, answer.1) :: back =
        front ++ [(procedure.name, answer.1)] ++ back by simp] at hfunctions
      obtain ⟨defined, rfl, hdefined⟩ := ih hsubset.2 hfitting.2 hshaped.2 hdeclares'
        hcompletes.2.2 hidle functions hfunctions
      exact ⟨(procedure.name, answer.1) :: defined, by simp,
        .cons ⟨rfl, hformed, hfollows⟩ hdefined⟩

/-- The module of a program that fits and is in shape declares the routines that it relies on, and
defines a well-formed function for each procedure. -/
theorem Module.ofProgram_ensures (hfitting : program.Fitting) (hshaped : program.Shaped) :
    Ensures (Module.ofProgram program) (fun module => ∃ functions,
      module.functions = runtime ++ functions ∧ List.Forall₂ (fun procedure function =>
        function.WellFormed ∧ function.Follows procedure) program.procedures functions) := by
  obtain ⟨contents, hcontents, hstrings⟩ := strings_yields hfitting
  obtain ⟨declared, hdeclared, hdeclares, _⟩ := signatures_yields hfitting
  have hawaits := Ensures.mapM (fun procedure hprocedure =>
    signature_ensures (hshaped procedure hprocedure)) declared hdeclared
  have hbodies := @bodies_ensures program _ {} hfitting.names hstrings _ [] declared
    (List.Subset.refl _) hfitting.procedures hshaped hdeclares hawaits
    ⟨by simp, rfl, by simp⟩ rfl
  simp only [Module.ofProgram, hcontents, hdeclared, Code.Lowering.ok_bind]
  refine hbodies.bind fun functions hfunctions => .pure ?_
  obtain ⟨_, rfl, hdefined⟩ := hfunctions
  refine ⟨functions.map (·.2), rfl, ?_⟩
  exact List.forall₂_map_right_iff.2 (hdefined.imp fun _ _ hdefines => hdefines.2)

end Modules

/-! ## Accepted programs -/

/-- Accepted programs become well-formed modules of LLVM. If bytes have been read, parsed, resolved
and checked without a mistake, then the code of the program, as it is and optimized, is emitted as
a module that declares the routines of the runtime and defines a function for each procedure. In every
such function the first block is `entry` and nothing branches to it, branches lead to blocks of the
function, namely to those that begin at the quads with the labels in question, and every numbered
value is defined before it is used, in the same block or as storage that the first block reserves. -/
theorem wellFormed_of_accepted (bytes : List UInt8) (tree : Tree.Program)
    (hparse : (Tree.parse (.ofText (Text.Utf8.decode bytes))).program = some tree)
    (state : Resolution.State) (resolved : Resolution.Resolved Tree.Program)
    (hresolve : resolve {} tree = .ok (state, resolved)) (hok : resolved.ok = true)
    (checked : Typing.Checked Tree.Program) (hcheck : check resolved.tree = .ok checked)
    (hmessages : checked.messages = []) :
    ∃ code, Code.lower checked.tree = .ok code ∧ ∀ program ∈ [code, code.optimize],
      ∃ module functions, Module.ofProgram program = .ok module ∧
        emit program = .ok module.render ∧ module.functions = runtime ++ functions ∧
        (∀ routine ∈ runtime, routine.blocks = []) ∧
        List.Forall₂ (fun procedure function =>
          function.WellFormed ∧ function.Follows procedure) program.procedures functions := by
  obtain ⟨code, hlower, hall⟩ := Code.exists_lower_shaped hparse hresolve hok hcheck hmessages
  refine ⟨code, hlower, ?_⟩
  intro program hprogram
  obtain ⟨hfitting, hshaped, _⟩ := hall program hprogram
  obtain ⟨module, hmodule, _⟩ := Module.ofProgram_yields hfitting
  obtain ⟨functions, hfunctions, hdefined⟩ :=
    Module.ofProgram_ensures hfitting hshaped module hmodule
  refine ⟨module, functions, hmodule, ?_, hfunctions, by simp [runtime], hdefined⟩
  simp only [emit, hmodule, Code.Lowering.ok_bind]
  rfl

/-- A program in which the result of one call is the argument of the next, some code is never
reached, and several labels come to lie on one quad once the code is optimized. -/
def callsText : String :=
  "int twice(int n) \x7b if (n < 1) \x7b return 0; report 1; \x7d return n + n; \x7d " ++
  "void main() \x7b int k; receive k; while (k > 0) \x7b if (k > 3) \x7b " ++
  "k = twice(twice(k)) - k; \x7d else \x7b if (k == 2) \x7b k--; \x7d \x7d \x7d " ++
  "report twice(k); \x7d"

/-- The program with the calls is accepted, so its functions are well formed. -/
theorem wellFormed_of_accepted_calls :
    ∃ tree code, Code.accepted? callsText = some tree ∧ Code.lower tree = .ok code ∧
      ∀ program ∈ [code, code.optimize],
        ∃ module functions, Module.ofProgram program = .ok module ∧
          emit program = .ok module.render ∧ module.functions = runtime ++ functions ∧
          (∀ routine ∈ runtime, routine.blocks = []) ∧
          List.Forall₂ (fun procedure function =>
            function.WellFormed ∧ function.Follows procedure) program.procedures functions := by
  have hsome : (Code.accepted? callsText).isSome = true := by
    unfold Code.accepted? callsText
    repeat rewrite [String.toList_append]
    repeat rewrite [String.toList_ofList]
    decide +kernel
  obtain ⟨program, haccepted⟩ := Option.isSome_iff_exists.1 hsome
  obtain ⟨tree, state, resolved, checked, hparse, hresolve, hok, hcheck, hmessages, rfl⟩ :=
    Code.exists_of_accepted? haccepted
  rw [← Text.Utf8.decode_encode callsText.toList] at hparse
  obtain ⟨code, hlower, hformed⟩ := wellFormed_of_accepted _ tree hparse state resolved hresolve
    hok checked hcheck hmessages
  exact ⟨checked.tree, code, haccepted, hlower, hformed⟩

end Shanty.Target.Llvm
