/-
# Values of LLVM are defined before they are used

A numbered value is the result of an instruction. Emission keeps such values at hand in three places:
the pointers to the storage of a procedure, which its first block reserves, the arguments of
the next call, and the result of the last one. The pointers are good in every block. The arguments and
the result are good as long as the block in which they were computed is being written, and since
calls are in one piece they are used up before it ends.

So every value that an instruction uses has been computed before, either in the same block or by an
instruction of the first block that reserves storage, and no two results of a function have the same
number.
-/

import Shanty.Proofs.Code.Shape
import Shanty.Proofs.Target.Llvm.Module

namespace Shanty.Target.Llvm

open Code (Operand Quad Procedure Program Site Pending Label Variable Temp Slot CallPhase Unbroken
  labelsOf slotWidth)

/-! ## Definitions and uses -/

/-- The values that an instruction uses. -/
def Instr.operands : Instr → List Value
  | .alloca _ => []
  | .load _ source => [source]
  | .store value target => [value, target]
  | .arith _ left right | .compare _ left right => [left, right]
  | .cast _ value _ => [value]
  | .firstChar string _ => [string]
  | .call _ _ args => args

/-- Whether an instruction reserves storage. -/
def Instr.isAlloca : Instr → Bool
  | .alloca _ => true
  | _ => false

/-- The values that the end of a block uses. -/
def Terminator.operands : Terminator → List Value
  | .ret value => value.toList
  | .jump _ => []
  | .branch condition _ _ => [condition]

/-- A value that is numbered is the result of one of some steps. -/
def Value.DefinedBy (steps : List Step) (value : Value) : Prop :=
  ∀ number type, value = .numbered number type →
    ∃ step ∈ steps, step.number = some number ∧ step.instr.type = type

theorem Value.DefinedBy.mono {steps steps' : List Step} (hsubset : steps ⊆ steps') {value : Value}
    (hdefined : value.DefinedBy steps) : value.DefinedBy steps' := by
  intro number type heq
  obtain ⟨step, hstep, hnumber⟩ := hdefined number type heq
  exact ⟨step, hsubset hstep, hnumber⟩

/-- Each step uses only what is reserved or computed before it. -/
def StepsScoped (reserved steps : List Step) : Prop :=
  ∀ front step back, steps = front ++ step :: back →
    ∀ value ∈ step.instr.operands, value.DefinedBy (reserved ++ front)

theorem StepsScoped.concat {reserved steps : List Step} (hscoped : StepsScoped reserved steps)
    {step : Step} (hstep : ∀ value ∈ step.instr.operands, value.DefinedBy (reserved ++ steps)) :
    StepsScoped reserved (steps ++ [step]) := by
  intro front other back heq
  rcases List.eq_nil_or_concat back with rfl | ⟨back, last, rfl⟩
  · obtain ⟨rfl, hlast⟩ := List.append_inj_left' heq rfl, List.append_inj_right' heq rfl
    cases hlast
    exact hstep
  · rw [List.concat_eq_append, ← List.cons_append, ← List.append_assoc] at heq
    exact hscoped front other back (List.append_inj_left' heq rfl)

/-- A block uses only what is reserved or computed in it before. -/
structure Block.Scoped (reserved : List Step) (block : Block) : Prop where
  steps : StepsScoped reserved block.steps
  terminator : ∀ value ∈ block.terminator.operands, value.DefinedBy (reserved ++ block.steps)

/-! ## Builders -/

/-- The steps of a block so far, in their order. -/
def Builder.written (builder : Builder) : List Step := builder.steps.reverse

/-- What a builder has written of a block uses only what is reserved or computed before, and its
results are numbered one after the other from a start on. -/
structure Builder.Sound (reserved : List Step) (start : Nat) (builder : Builder) : Prop where
  scope : StepsScoped reserved builder.written
  numbers : builder.written.filterMap (·.number) = List.range' start (builder.next - start)
  start_le : start ≤ builder.next

/-- A builder after some steps have been appended. -/
structure Builder.Adds (reserved : List Step) (start : Nat) (builder builder' : Builder) : Prop where
  sound : builder'.Sound reserved start
  written : builder.written <+: builder'.written
  args : builder'.args = builder.args
  last : builder'.last? = builder.last?

/-- A value is at hand in a builder. -/
abbrev Builder.Has (reserved : List Step) (builder : Builder) (value : Value) : Prop :=
  value.DefinedBy (reserved ++ builder.written)

/-- A builder after some steps have been appended, and a value of a type that is at hand then. -/
structure Answers (reserved : List Step) (start : Nat) (builder : Builder) (type : IrType)
    (answer : Value × Builder) : Prop where
  adds : builder.Adds reserved start answer.2
  has : answer.2.Has reserved answer.1
  type : answer.1.type = type

section Builders

variable {reserved : List Step} {start : Nat} {builder builder' builder'' : Builder}

theorem Builder.Adds.refl (hsound : builder.Sound reserved start) :
    builder.Adds reserved start builder :=
  ⟨hsound, List.prefix_refl _, rfl, rfl⟩

theorem Builder.Adds.trans (hfirst : builder.Adds reserved start builder')
    (hsecond : builder'.Adds reserved start builder'') : builder.Adds reserved start builder'' where
  sound := hsecond.sound
  written := hfirst.written.trans hsecond.written
  args := hsecond.args.trans hfirst.args
  last := hsecond.last.trans hfirst.last

/-- What is at hand stays at hand. -/
theorem Builder.Adds.has (hadds : builder.Adds reserved start builder') {value : Value}
    (hhas : builder.Has reserved value) : builder'.Has reserved value :=
  Value.DefinedBy.mono (((List.Sublist.refl _).append hadds.written.sublist).subset) hhas

theorem Answers.trans {type type' : IrType} {first second : Value × Builder}
    (hfirst : Answers reserved start builder type first)
    (hsecond : Answers reserved start first.2 type' second) :
    Answers reserved start builder type' second :=
  ⟨hfirst.adds.trans hsecond.adds, hsecond.has, hsecond.type⟩

/-- A word needs no definition. -/
theorem has_word (number : Int) : builder.Has reserved (.word number) := nofun

theorem has_param (name : String) (type : IrType) : builder.Has reserved (.param name type) := nofun

theorem has_global (name : String) (content : IrType) :
    builder.Has reserved (.global name content) := nofun

/-- An instruction that uses only what is at hand can be appended. -/
theorem Builder.push_adds (hsound : builder.Sound reserved start) {instr : Instr}
    (hoperands : ∀ value ∈ instr.operands, builder.Has reserved value) :
    builder.Adds reserved start (builder.push instr).2 := by
  unfold Builder.push
  split
  · refine ⟨⟨?_, ?_, Nat.le_succ_of_le hsound.start_le⟩, ?_, rfl, rfl⟩
    · simpa [written] using hsound.scope.concat hoperands
    · have hcount : builder.next + 1 - start = builder.next - start + 1 := by
        have hle := hsound.start_le
        omega
      have hlast : start + 1 * (builder.next - start) = builder.next := by
        have hle := hsound.start_le
        omega
      have hnumbers := hsound.numbers
      simp only [written] at hnumbers ⊢
      rw [hcount, List.range'_concat, hlast, ← hnumbers]
      simp
    · simp [written]
  · refine ⟨⟨?_, ?_, hsound.start_le⟩, ?_, rfl, rfl⟩
    · simpa [written] using hsound.scope.concat hoperands
    · simpa [written] using hsound.numbers
    · simp [written]

/-- An instruction with a result makes the result available. -/
theorem Builder.push_answers (hsound : builder.Sound reserved start) (instr : Instr)
    (hresult : instr.hasResult = true)
    (hoperands : ∀ value ∈ instr.operands, builder.Has reserved value) :
    Answers reserved start builder instr.type (builder.push instr) := by
  have hadds := Builder.push_adds hsound hoperands
  unfold Builder.push at hadds ⊢
  rw [if_pos hresult] at hadds ⊢
  refine ⟨hadds, ?_, rfl⟩
  rintro number type ⟨⟩
  refine ⟨⟨some builder.next, instr⟩, ?_, rfl, rfl⟩
  simp [written]

theorem Builder.store_ensures (hsound : builder.Sound reserved start) {value target : Value}
    (hvalue : builder.Has reserved value) (htarget : builder.Has reserved target) :
    Ensures (builder.store value target) (builder.Adds reserved start) := by
  unfold Builder.store
  split
  · split
    · refine .ok (Builder.push_adds hsound ?_)
      simp only [Instr.operands, List.forall_mem_cons]
      exact ⟨hvalue, htarget, by simp⟩
    · exact .error
  · exact .error

theorem fromWord_answers (hsound : builder.Sound reserved start) {word : Value}
    (hword : builder.Has reserved word) (type : Ty) :
    ∃ type', Answers reserved start builder type' (fromWord builder word type) := by
  unfold fromWord
  split
  · exact ⟨_, Builder.push_answers hsound (.cast .intToPtr word IrType.text) rfl
      (List.forall_mem_singleton.2 hword)⟩
  · exact ⟨_, .refl hsound, hword, rfl⟩

theorem toWord_answers (hsound : builder.Sound reserved start) {value : Value}
    (hvalue : builder.Has reserved value) :
    ∃ type, Answers reserved start builder type (toWord builder value) := by
  unfold toWord
  split
  · exact ⟨_, Builder.push_answers hsound (.cast .ptrToInt value IrType.i64) rfl
      (List.forall_mem_singleton.2 hvalue)⟩
  · exact ⟨_, .refl hsound, hvalue, rfl⟩

/-- An operation on two words can be appended. -/
theorem arith_answers (hsound : builder.Sound reserved start) (op : ArithOp) {left right : Value}
    (hleft : builder.Has reserved left) (hright : builder.Has reserved right)
    (htype : left.type = IrType.i64) :
    Answers reserved start builder IrType.i64 (builder.push (.arith op left right)) := by
  have hresult : (Instr.arith op left right).hasResult = true := by
    rw [Instr.hasResult, Instr.type, htype]
    rfl
  have hanswers := Builder.push_answers hsound _ hresult (by
    simp only [Instr.operands, List.forall_mem_cons]
    exact ⟨hleft, hright, by simp⟩)
  rwa [Instr.type, htype] at hanswers

theorem comparison_answers (hsound : builder.Sound reserved start) (predicate : Predicate)
    {left right : Value} (hleft : builder.Has reserved left) (hright : builder.Has reserved right) :
    Answers reserved start builder IrType.i64
      (binary.comparison builder left right predicate) := by
  have hbit := Builder.push_answers hsound (.compare predicate left right) rfl (by
    simp only [Instr.operands, List.forall_mem_cons]
    exact ⟨hleft, hright, by simp⟩)
  exact hbit.trans (Builder.push_answers hbit.adds.sound (.cast .zext _ IrType.i64) rfl
    (List.forall_mem_singleton.2 hbit.has))

theorem binary_answers (hsound : builder.Sound reserved start) (op : Code.BinaryOp)
    {left right : Value} (hleft : builder.Has reserved left) (hright : builder.Has reserved right)
    (htype : left.type = IrType.i64) :
    Answers reserved start builder IrType.i64 (binary builder op left right) := by
  have harith := fun op => arith_answers hsound op hleft hright htype
  have hcomparison := fun predicate => comparison_answers hsound predicate hleft hright
  cases op with
  | add => exact harith .add
  | sub => exact harith .sub
  | mult => exact harith .mul
  | div => exact harith .sdiv
  | and => exact harith .and
  | or => exact harith .or
  | eq => exact hcomparison .eq
  | neq => exact hcomparison .ne
  | lt => exact hcomparison .slt
  | gt => exact hcomparison .sgt
  | lte => exact hcomparison .sle
  | gte => exact hcomparison .sge

end Builders

/-! ## Operands -/

/-- The values that a function keeps at hand are defined by some steps. -/
structure Env.Grounded (env : Env) (steps : List Step) : Prop where
  slots : ∀ entry ∈ env.slots, entry.2.DefinedBy steps
  place : ∀ place ∈ env.result?, place.DefinedBy steps ∧ (env.function.result != .void) = true
  params : ∀ param ∈ env.function.params, param.DefinedBy steps

theorem Env.Grounded.mono {env : Env} {steps steps' : List Step} (hsubset : steps ⊆ steps')
    (hgrounded : env.Grounded steps) : env.Grounded steps' where
  slots entry hentry := (hgrounded.slots entry hentry).mono hsubset
  place place hplace := ⟨(hgrounded.place place hplace).1.mono hsubset,
    (hgrounded.place place hplace).2⟩
  params param hparam := (hgrounded.params param hparam).mono hsubset

/-- A builder of a block of a function, where what the function keeps at hand is defined. -/
structure Env.Serving (env : Env) (reserved : List Step) (start : Nat) (builder : Builder) :
    Prop where
  sound : builder.Sound reserved start
  grounded : env.Grounded (reserved ++ builder.written)

section Operands

variable {env : Env} {reserved : List Step} {start : Nat} {builder builder' : Builder}

theorem Env.Serving.adds (hserving : env.Serving reserved start builder)
    (hadds : builder.Adds reserved start builder') : env.Serving reserved start builder' :=
  ⟨hadds.sound, hserving.grounded.mono ((List.Sublist.refl _).append hadds.written.sublist).subset⟩

theorem Env.Serving.lookup (hserving : env.Serving reserved start builder) {slot : Slot}
    {value : Value} (hlookup : env.slots.lookup slot = some value) : builder.Has reserved value := by
  obtain ⟨front, back, hslots, _⟩ := List.lookup_eq_some_iff.1 hlookup
  exact hserving.grounded.slots (slot, value) (by simp [hslots])

theorem Env.Serving.pointerTo_ensures (hserving : env.Serving reserved start builder)
    (operand : Operand) : Ensures (env.pointerTo operand) (builder.Has reserved) := by
  have hmissing : ∀ {slot : Slot} {missing : Except Fault Value},
      Ensures missing (builder.Has reserved) →
        Ensures ((env.slots.lookup slot).elim missing .ok) (builder.Has reserved) := by
    intro slot missing hmissing
    cases hlookup : env.slots.lookup slot with
    | none => exact hmissing
    | some value => exact .ok (hserving.lookup hlookup)
  have herror : ∀ {rendered : Except Fault String} {fault : String → Fault},
      Ensures (rendered >>= fun text => (.error (fault text) : Except Fault Value))
        (builder.Has reserved) := by
    intro rendered fault answer hrun
    obtain ⟨_, _, hrun⟩ := exists_of_bind_eq_ok hrun
    cases hrun
  unfold Env.pointerTo
  split
  · split
    · exact .ok (has_global _ _)
    · exact hmissing herror
  · exact hmissing herror
  · exact hmissing herror
  · exact herror

theorem Env.Serving.pointerToAddress_ensures (hserving : env.Serving reserved start builder)
    (temp : Temp) : Ensures (env.pointerToAddress temp) (builder.Has reserved) := by
  unfold Env.pointerToAddress
  cases hlookup : env.slots.lookup temp.slot with
  | none => exact .error
  | some value => exact .ok (hserving.lookup hlookup)

theorem Env.Serving.heldPointer_ensures (hserving : env.Serving reserved start builder)
    (temp : Temp) :
    Ensures (env.heldPointer builder temp)
      (Answers reserved start builder (.pointer IrType.i64)) := by
  refine (hserving.pointerToAddress_ensures temp).bind fun pointer hpointer => ?_
  have haddress := Builder.push_answers hserving.sound (.load IrType.i64 pointer) rfl
    (List.forall_mem_singleton.2 hpointer)
  exact .pure (haddress.trans (Builder.push_answers haddress.adds.sound
    (.cast .intToPtr _ (.pointer IrType.i64)) rfl (List.forall_mem_singleton.2 haddress.has)))

theorem Env.Serving.load_ensures (hserving : env.Serving reserved start builder)
    (operand : Operand) :
    Ensures (env.load builder operand) (Answers reserved start builder IrType.i64) := by
  have hpush : ∀ {builder' : Builder} {pointer : Value}, builder'.Sound reserved start →
      builder'.Has reserved pointer →
        Answers reserved start builder' IrType.i64 (builder'.push (.load IrType.i64 pointer)) :=
    fun hsound hpointer => Builder.push_answers hsound (.load IrType.i64 _) rfl
      (List.forall_mem_singleton.2 hpointer)
  unfold Env.load
  split
  · split
    · exact .ok ⟨.refl hserving.sound, has_word _, rfl⟩
    · exact .error
  · next index =>
    have hfirst := Builder.push_answers hserving.sound (.firstChar
      (.global (Code.stringLabel index) (env.strings.getD index .void))
      (env.strings.getD index .void)) rfl (List.forall_mem_singleton.2 (has_global _ _))
    exact .ok (hfirst.trans (Builder.push_answers hfirst.adds.sound
      (.cast .ptrToInt _ IrType.i64) rfl (List.forall_mem_singleton.2 hfirst.has)))
  · next temp =>
    refine (hserving.heldPointer_ensures temp).bind fun answer hpointer => ?_
    exact .pure (hpointer.trans (hpush hpointer.adds.sound hpointer.has))
  · refine (hserving.pointerTo_ensures _).bind fun pointer hpointer => ?_
    exact .pure (hpush hserving.sound hpointer)

theorem Env.Serving.store_ensures (hserving : env.Serving reserved start builder) {value : Value}
    (hvalue : builder.Has reserved value) (operand : Operand) :
    Ensures (env.store builder value operand) (builder.Adds reserved start) := by
  unfold Env.store
  split
  · next temp =>
    refine (hserving.heldPointer_ensures temp).bind fun answer hpointer => ?_
    intro after hrun
    exact hpointer.adds.trans (Builder.store_ensures hpointer.adds.sound
      (hpointer.adds.has hvalue) hpointer.has after hrun)
  · refine (hserving.pointerTo_ensures _).bind fun pointer hpointer => ?_
    exact Builder.store_ensures hserving.sound hvalue hpointer

theorem Env.Serving.addressOf_ensures (hserving : env.Serving reserved start builder)
    (operand : Operand) :
    Ensures (env.addressOf builder operand) (Answers reserved start builder IrType.i64) := by
  unfold Env.addressOf
  split
  · next temp =>
    refine (hserving.pointerToAddress_ensures temp).bind fun pointer hpointer => ?_
    exact .pure (Builder.push_answers hserving.sound (.load IrType.i64 pointer) rfl
      (List.forall_mem_singleton.2 hpointer))
  · refine (hserving.pointerTo_ensures _).bind fun pointer hpointer => ?_
    exact .pure (Builder.push_answers hserving.sound (.cast .ptrToInt pointer IrType.i64) rfl
      (List.forall_mem_singleton.2 hpointer))

theorem Env.Serving.recordPointer_ensures (hserving : env.Serving reserved start builder)
    (operand : Operand) (type : IrType) :
    Ensures (env.recordPointer builder operand type) (fun answer =>
      ∃ type', Answers reserved start builder type' answer) := by
  unfold Env.recordPointer
  split
  · next temp =>
    refine (hserving.addressOf_ensures (.address temp)).bind fun answer haddress => ?_
    exact .pure ⟨_, haddress.trans (Builder.push_answers haddress.adds.sound
      (.cast .intToPtr _ (.pointer type)) rfl (List.forall_mem_singleton.2 haddress.has))⟩
  · refine (hserving.pointerTo_ensures _).bind fun pointer hpointer => ?_
    exact .pure ⟨_, .refl hserving.sound, hpointer, rfl⟩

end Operands

/-! ## Quads -/

/-- The arguments of the next call and the result of the last one are at hand in a phase of a call. -/
structure Builder.Keeps (reserved : List Step) (phase : CallPhase) (builder : Builder) : Prop where
  args : ∀ value ∈ builder.args, builder.Has reserved value
  idle : phase ≠ .passing → builder.args = []
  last : phase = .called → ∀ value ∈ builder.last?, (value.type != .void) = true →
    builder.Has reserved value

/-- A builder after a quad that leads to a phase. -/
structure Advances (env : Env) (reserved : List Step) (start : Nat) (phase : CallPhase)
    (builder after : Builder) : Prop where
  serving : env.Serving reserved start after
  keeps : after.Keeps reserved phase
  written : builder.written <+: after.written

section Quads

variable {env : Env} {reserved : List Step} {start : Nat} {builder : Builder} {phase : CallPhase}

theorem storageType_ne_void {operand : Operand} {type : IrType}
    (htype : storageType operand = .ok type) : (type != .void) = true := by
  have hwidth : ∀ width : Int64, (IrType.ofWidth width != .void) = true := by
    intro width
    unfold IrType.ofWidth
    split <;> rfl
  unfold storageType at htype
  split at htype
  · cases htype
    rfl
  · obtain ⟨width, _, heq⟩ := exists_of_bind_eq_ok htype
    cases heq
    exact hwidth width

theorem getArg_ensures (hserving : env.Serving reserved start builder) (position count : Int)
    (target : Operand) (isRecord : Bool) :
    Ensures (instr env builder (.getArg position count target isRecord))
      (builder.Adds reserved start) := by
  simp only [instr]
  split
  · exact .error
  · next param hparam =>
    have hmem : param ∈ env.function.params := by
      split at hparam
      · cases hparam
      · exact List.mem_of_getElem? hparam
    have hhas := hserving.grounded.params param hmem
    split
    · intro after hrun
      obtain ⟨type, htype, hrun⟩ := exists_of_bind_eq_ok hrun
      obtain ⟨pointer, hpointer, hrun⟩ := exists_of_bind_eq_ok hrun
      have hcast := Builder.push_answers hserving.sound (.cast .bitcast param (.pointer type)) rfl
        (List.forall_mem_singleton.2 hhas)
      have hvalue := hcast.trans (Builder.push_answers hcast.adds.sound (.load type _)
        (storageType_ne_void htype) (List.forall_mem_singleton.2 hcast.has))
      have htarget := hvalue.adds.has (hserving.pointerTo_ensures target pointer hpointer)
      exact hvalue.adds.trans (Builder.store_ensures hvalue.adds.sound hvalue.has htarget after hrun)
    · obtain ⟨_, hword⟩ := toWord_answers hserving.sound hhas
      intro after hrun
      exact hword.adds.trans
        ((hserving.adds hword.adds).store_ensures hword.has target after hrun)

theorem setRet_ensures (hserving : env.Serving reserved start builder) (source : Operand)
    (isRecord : Bool) :
    Ensures (instr env builder (.setRet source isRecord)) (builder.Adds reserved start) := by
  simp only [instr]
  cases hplace : env.result? with
  | none =>
      split
      · exact (hserving.recordPointer_ensures source _).bind fun _ _ => .error
      · exact (hserving.load_ensures source).bind fun _ _ => .error
  | some place =>
      obtain ⟨hhas, hresult⟩ := hserving.grounded.place place (by simp [hplace])
      have hstore : ∀ {answer : Value × Builder} {type : IrType},
          Answers reserved start builder type answer →
            Ensures (answer.2.store answer.1 place) (builder.Adds reserved start) := by
        intro answer type hanswer after hrun
        exact hanswer.adds.trans (Builder.store_ensures hanswer.adds.sound hanswer.has
          (hanswer.adds.has hhas) after hrun)
      split
      · refine (hserving.recordPointer_ensures source _).bind fun answer hpointer => ?_
        obtain ⟨_, hpointer⟩ := hpointer
        exact hstore (hpointer.trans (Builder.push_answers hpointer.adds.sound
          (.load env.function.result _) hresult (List.forall_mem_singleton.2 hpointer.has)))
      · refine (hserving.load_ensures source).bind fun answer hword => ?_
        by_cases htext : (env.function.result == IrType.text) = true
        · simp only [htext, if_true]
          exact hstore (hword.trans (Builder.push_answers hword.adds.sound
            (.cast .intToPtr _ IrType.text) rfl (List.forall_mem_singleton.2 hword.has)))
        · simp only [htext]
          exact hstore hword

theorem getRet_ensures (hserving : env.Serving reserved start builder) (target : Operand)
    (isRecord : Bool) (hlast : ∀ value ∈ builder.last?, builder.Has reserved value) :
    Ensures (instr env builder (.getRet target isRecord)) (builder.Adds reserved start) := by
  simp only [instr]
  split
  · exact .error
  · next value hvalue =>
    have hhas := hlast value hvalue
    split
    · exact (hserving.pointerTo_ensures target).bind fun pointer hpointer =>
        Builder.store_ensures hserving.sound hhas hpointer
    · obtain ⟨_, hword⟩ := toWord_answers hserving.sound hhas
      intro after hrun
      exact hword.adds.trans
        ((hserving.adds hword.adds).store_ensures hword.has target after hrun)

/-- A quad that is no call and sets no argument only appends steps. -/
theorem instr_adds (hserving : env.Serving reserved start builder) {quad : Code.Instr}
    (hphase : quad.phase = .idle)
    (hlast : quad.isGetRet = true → ∀ value ∈ builder.last?, builder.Has reserved value) :
    Ensures (instr env builder quad) (builder.Adds reserved start) := by
  have hstore : ∀ {answer : Value × Builder} {type : IrType} (target : Operand),
      Answers reserved start builder type answer →
        Ensures (env.store answer.2 answer.1 target) (builder.Adds reserved start) := by
    intro answer type target hanswer after hrun
    exact hanswer.adds.trans
      ((hserving.adds hanswer.adds).store_ensures hanswer.has target after hrun)
  cases quad with
  | setArg => cases hphase
  | call => cases hphase
  | binary op target left right =>
      refine (hserving.load_ensures left).bind fun first hfirst => ?_
      refine ((hserving.adds hfirst.adds).load_ensures right).bind fun second hsecond => ?_
      have hvalue := binary_answers hsecond.adds.sound op (hsecond.adds.has hfirst.has)
        hsecond.has hfirst.type
      exact hstore target ((hfirst.trans hsecond).trans hvalue)
  | unary op target source =>
      refine (hserving.load_ensures source).bind fun operand hoperand => ?_
      cases op with
      | neg => exact hstore target (hoperand.trans
          (arith_answers hoperand.adds.sound .sub (has_word 0) hoperand.has rfl))
      | not => exact hstore target (hoperand.trans
          (arith_answers hoperand.adds.sound .xor hoperand.has (has_word 1) hoperand.type))
  | assign target source =>
      exact (hserving.load_ensures source).bind fun value hvalue => hstore target hvalue
  | index target base offset =>
      simp only [instr]
      split
      · exact .error
      · next bytes _ =>
        refine (hserving.addressOf_ensures base).bind fun address haddress => ?_
        have hsum := haddress.trans (arith_answers haddress.adds.sound .add haddress.has
          (has_word bytes) haddress.type)
        refine ((hserving.adds hsum.adds).pointerToAddress_ensures target).bind
          fun pointer hpointer => ?_
        intro after hrun
        exact hsum.adds.trans
          (Builder.store_ensures hsum.adds.sound hsum.has hpointer after hrun)
  | getArg position count target isRecord => exact getArg_ensures hserving _ _ _ _
  | setRet source isRecord => exact setRet_ensures hserving source isRecord
  | getRet target isRecord => exact getRet_ensures hserving target isRecord (hlast rfl)
  | output source type =>
      refine (hserving.load_ensures source).bind fun word hword => .pure ?_
      obtain ⟨_, hvalue⟩ := fromWord_answers hword.adds.sound hword.has type
      exact (hword.trans hvalue).adds.trans (Builder.push_adds hvalue.adds.sound
        (List.forall_mem_singleton.2 hvalue.has))
  | input target type =>
      exact hstore target (Builder.push_answers hserving.sound
        (.call (inputRoutine type) IrType.i64 []) rfl (by simp [Instr.operands]))
  | enter => exact .ok (.refl hserving.sound)
  | nop => exact .ok (.refl hserving.sound)
  | goto => exact .ok (.refl hserving.sound)
  | ifZero => exact .ok (.refl hserving.sound)
  | leave => exact .ok (.refl hserving.sound)

theorem setArg_ensures (hserving : env.Serving reserved start builder)
    (hkeeps : builder.Keeps reserved phase) (position : Int) (source : Operand) (type : Ty) :
    Ensures (instr env builder (.setArg position source type))
      (Advances env reserved start .passing builder) := by
  have happend : ∀ {answer : Value × Builder} {type : IrType},
      Answers reserved start builder type answer →
        Advances env reserved start .passing builder
          { answer.2 with args := answer.2.args ++ [answer.1] } := by
    intro answer type hanswer
    have hserving' := hserving.adds hanswer.adds
    refine ⟨⟨⟨hserving'.sound.scope, hserving'.sound.numbers, hserving'.sound.start_le⟩,
      hserving'.grounded⟩, ⟨?_, nofun, nofun⟩, hanswer.adds.written⟩
    simp only [hanswer.adds.args, List.forall_mem_append, List.forall_mem_singleton]
    exact ⟨fun value hvalue => hanswer.adds.has (hkeeps.args value hvalue), hanswer.has⟩
  simp only [instr]
  split
  · refine (hserving.addressOf_ensures source).bind fun address haddress => .pure ?_
    exact happend (haddress.trans (Builder.push_answers haddress.adds.sound
      (.cast .intToPtr _ (.pointer IrType.i64)) rfl (List.forall_mem_singleton.2 haddress.has)))
  · refine (hserving.load_ensures source).bind fun word hword => .pure ?_
    obtain ⟨_, hvalue⟩ := fromWord_answers hword.adds.sound hword.has type
    exact happend (hword.trans hvalue)

theorem call_ensures (hserving : env.Serving reserved start builder)
    (hkeeps : builder.Keeps reserved phase) (callee : String) :
    Ensures (instr env builder (.call callee))
      (Advances env reserved start .called builder) := by
  simp only [instr]
  split
  · exact .error
  · next function _ =>
    refine .pure ?_
    have hadds := Builder.push_adds hserving.sound
      (show ∀ value ∈ (Instr.call function.name function.result builder.args).operands,
        builder.Has reserved value from hkeeps.args)
    have hserving' := hserving.adds hadds
    refine ⟨⟨⟨hserving'.sound.scope, hserving'.sound.numbers, hserving'.sound.start_le⟩,
      hserving'.grounded⟩, ⟨by simp, fun _ => rfl, ?_⟩, hadds.written⟩
    rintro _ value ⟨⟩ hresult
    exact (Builder.push_answers hserving.sound
      (.call function.name function.result builder.args) (by
        unfold Builder.push at hresult
        split at hresult <;> exact hresult) hkeeps.args).has

/-- A quad leaves what is at hand at hand as long as it is needed. -/
theorem instr_ensures (hserving : env.Serving reserved start builder)
    (hkeeps : builder.Keeps reserved phase) {quad : Quad} (hadmits : phase.Admits quad)
    (hlast : quad.instr.isGetRet = true →
      ∀ value ∈ builder.last?, (value.type != .void) = true) :
    Ensures (instr env builder quad.instr)
      (Advances env reserved start quad.instr.phase builder) := by
  by_cases hphase : quad.instr.phase = .idle
  · have hadds := instr_adds hserving hphase fun hfetch value hvalue =>
      hkeeps.last (hadmits.fetching hfetch).1 value hvalue (hlast hfetch value hvalue)
    have hnone := hkeeps.idle fun hpassing => (hadmits.passing hpassing).2 hphase
    intro after hrun
    have hafter := hadds after hrun
    rw [hphase]
    refine ⟨hserving.adds hafter, ⟨?_, fun _ => hafter.args.trans hnone, nofun⟩, hafter.written⟩
    rw [hafter.args, hnone]
    simp
  · cases hinstr : quad.instr with
    | setArg position source type => exact setArg_ensures hserving hkeeps position source type
    | call callee => exact call_ensures hserving hkeeps callee
    | _ => simp [hinstr, Code.Instr.phase] at hphase

end Quads

end Shanty.Target.Llvm
