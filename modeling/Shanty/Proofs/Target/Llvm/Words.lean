/-
# Numbers in modules of LLVM

A constant of the code has no instruction of its own in LLVM. It becomes a word that is written
directly into the instruction that uses it, or, if it is passed to a function, into the call. So the
words in a function are the constants of its procedure and those that belong to the form of an
instruction, like the zero that a condition is compared with.

While code is written, the words that have been read stand in steps or among the arguments of the next
call, and nowhere else: what the function keeps at hand is storage, parameters and results.
-/

import Shanty.Proofs.Code.Numbers
import Shanty.Proofs.Target.Llvm.Flow
import Shanty.Proofs.Text.Number
import Shanty.Proofs.Tree.Literals

namespace Shanty.Target.Llvm

open Code (Operand Quad Procedure Program Label Temp Slot Variable CallPhase Unbroken constantsIn)

/-! ## Words -/

/-- The number that a value is, if it is a word that is written down. -/
def Value.word? : Value → Option Int
  | .word number => some number
  | _ => none

/-- The words among some values. -/
def wordsIn (values : List Value) : List Int := values.filterMap (·.word?)

/-- The words in some steps. -/
def wordsOf (steps : List Step) : List Int := steps.flatMap fun step => wordsIn step.instr.operands

/-- The words in a block. -/
def Block.words (block : Block) : List Int :=
  wordsOf block.steps ++ wordsIn block.terminator.operands

/-- The words in a function. -/
def Function.words (function : Function) : List Int := function.blocks.flatMap (·.words)

/-- The numbers that some operands are, if they are constants. -/
def numbersIn (operands : List Operand) : List Int :=
  (constantsIn operands).filterMap Text.readInt64?

/-- The words that an instruction needs besides its constants. -/
def ownWords : Code.Instr → List Int
  | .unary .neg _ _ | .ifZero _ _ => [0]
  | .unary .not _ _ => [1]
  | .index _ _ offset => (Text.readInt64? offset).toList
  | _ => []

/-- The words that an instruction needs. -/
def neededWords (instr : Code.Instr) : List Int := numbersIn instr.sources ++ ownWords instr

@[simp]
theorem wordsIn_append (values others : List Value) :
    wordsIn (values ++ others) = wordsIn values ++ wordsIn others :=
  List.filterMap_append

theorem wordsIn_cons (value : Value) (values : List Value) :
    wordsIn (value :: values) = wordsIn [value] ++ wordsIn values :=
  wordsIn_append [value] values

theorem wordsIn_singleton {value : Value} (hvalue : value.word? = none) : wordsIn [value] = [] :=
  List.filterMap_cons_none hvalue

theorem numbersIn_append (operands others : List Operand) :
    numbersIn (operands ++ others) = numbersIn operands ++ numbersIn others := by
  rw [numbersIn, Code.constantsIn_append]
  exact List.filterMap_append

/-! ## Builders -/

/-- A builder after steps in which some words have been written. -/
structure Builder.Spends (words : List Int) (builder builder' : Builder) : Prop where
  written : (wordsOf builder'.written).Perm (wordsOf builder.written ++ words)
  args : builder'.args = builder.args
  last : builder'.last? = builder.last?

/-- A builder after steps in which some words have been written, and a value that is one of some
words itself or none at all. -/
structure Hands (spent held : List Int) (builder : Builder) (answer : Value × Builder) : Prop where
  spends : builder.Spends spent answer.2
  held : wordsIn [answer.1] = held

section Builders

variable {builder builder' builder'' : Builder} {words moreWords spent held : List Int}

theorem Builder.Spends.refl (builder : Builder) : builder.Spends [] builder :=
  ⟨.of_eq (List.append_nil _).symm, rfl, rfl⟩

theorem Builder.Spends.perm (hspends : builder.Spends words builder')
    (hperm : words.Perm moreWords) : builder.Spends moreWords builder' :=
  ⟨hspends.written.trans (hperm.append_left _), hspends.args, hspends.last⟩

theorem Builder.Spends.trans (hfirst : builder.Spends words builder')
    (hsecond : builder'.Spends moreWords builder'') :
    builder.Spends (words ++ moreWords) builder'' where
  written := by
    rw [← List.append_assoc]
    exact hsecond.written.trans (hfirst.written.append_right _)
  args := hsecond.args.trans hfirst.args
  last := hsecond.last.trans hfirst.last

theorem Builder.Spends.hands {answer : Value × Builder} (hspends : builder.Spends words builder')
    (hands : Hands spent held builder' answer) : Hands (words ++ spent) held builder answer :=
  ⟨hspends.trans hands.spends, hands.held⟩

/-- An instruction is appended with its words, and its result is none. -/
theorem Builder.push_hands (builder : Builder) (instr : Instr) :
    Hands (wordsIn instr.operands) [] builder (builder.push instr) := by
  unfold Builder.push
  split <;> exact ⟨⟨.of_eq (by simp [written, wordsOf]), rfl, rfl⟩, rfl⟩

theorem Builder.push_word (builder : Builder) (instr : Instr) :
    (builder.push instr).1.word? = none := by
  unfold Builder.push
  split <;> rfl

/-- An instruction uses just the value that is held. -/
theorem Hands.push {answer : Value × Builder} (hands : Hands spent held builder answer)
    {instr : Instr} (hoperands : instr.operands = [answer.1]) :
    Hands (spent ++ held) [] builder (answer.2.push instr) := by
  have hpush := answer.2.push_hands instr
  rw [hoperands, hands.held] at hpush
  exact ⟨hands.spends.trans hpush.spends, hpush.held⟩

theorem Builder.store_spends (builder : Builder) (value : Value) {target : Value}
    (htarget : wordsIn [target] = []) :
    Ensures (builder.store value target) (builder.Spends (wordsIn [value])) := by
  have hwords : wordsIn [value, target] = wordsIn [value] := by
    rw [wordsIn_cons, htarget, List.append_nil]
  unfold Builder.store
  split
  · split
    · exact .ok (hwords ▸ (builder.push_hands (.store value target)).spends)
    · exact .error
  · exact .error

/-- A word that is passed to a function is held, unless a pointer is made of it. -/
theorem fromWord_hands (builder : Builder) (word : Value) (type : Ty) :
    ∃ spent held, Hands spent held builder (fromWord builder word type) ∧
      spent ++ held = wordsIn [word] := by
  unfold fromWord
  split
  · exact ⟨_, [], builder.push_hands _, List.append_nil _⟩
  · exact ⟨[], _, ⟨.refl _, rfl⟩, rfl⟩

theorem toWord_hands (builder : Builder) {value : Value} (hvalue : value.word? = none) :
    Hands [] [] builder (toWord builder value) := by
  unfold toWord
  split
  · exact wordsIn_singleton hvalue ▸ builder.push_hands (.cast .ptrToInt value IrType.i64)
  · exact ⟨.refl _, wordsIn_singleton hvalue⟩

theorem binary_hands (builder : Builder) (op : Code.BinaryOp) (left right : Value) :
    Hands (wordsIn [left, right]) [] builder (binary builder op left right) := by
  have harith := fun op => builder.push_hands (.arith op left right)
  have hcomparison : ∀ predicate, Hands (wordsIn [left, right]) [] builder
      (binary.comparison builder left right predicate) := by
    intro predicate
    have hbit := builder.push_hands (.compare predicate left right)
    have hword := @Hands.push _ _ _ _ hbit (.cast .zext _ IrType.i64) rfl
    rwa [List.append_nil] at hword
  cases op with
  | add => exact harith .add
  | sub => exact harith .sub
  | mult => exact harith .mul
  | div => exact harith .sdiv
  | and => exact harith .and
  | or => exact harith .or
  | eq => exact hcomparison .eq
  | neq => exact hcomparison .ne
  | lt => exact hcomparison .slt
  | gt => exact hcomparison .sgt
  | lte => exact hcomparison .sle
  | gte => exact hcomparison .sge

end Builders

/-! ## Operands -/

/-- What a function keeps at hand is no word. -/
structure Env.Wordless (env : Env) : Prop where
  slots : ∀ entry ∈ env.slots, entry.2.word? = none
  place : ∀ place ∈ env.result?, place.word? = none
  params : ∀ param ∈ env.function.params, param.word? = none

section Operands

variable {env : Env}

theorem Env.Wordless.lookup (hwordless : env.Wordless) {slot : Slot} {value : Value}
    (hlookup : env.slots.lookup slot = some value) : value.word? = none := by
  obtain ⟨front, back, hslots, _⟩ := List.lookup_eq_some_iff.1 hlookup
  exact hwordless.slots (slot, value) (by simp [hslots])

theorem Env.Wordless.pointerToAddress (hwordless : env.Wordless) (temp : Temp) :
    Ensures (env.pointerToAddress temp) (·.word? = none) := by
  unfold Env.pointerToAddress
  cases hlookup : env.slots.lookup temp.slot with
  | none => exact .error
  | some value => exact .ok (hwordless.lookup hlookup)

/-- Only what is no constant has storage. -/
theorem Env.Wordless.pointerTo (hwordless : env.Wordless) (operand : Operand) :
    Ensures (env.pointerTo operand) (fun pointer =>
      pointer.word? = none ∧ numbersIn [operand] = []) := by
  have hslot : ∀ {slot : Slot} {missing : Except Fault Value}, (∀ value, missing ≠ .ok value) →
      numbersIn [operand] = [] → Ensures ((env.slots.lookup slot).elim missing .ok)
        (fun pointer => pointer.word? = none ∧ numbersIn [operand] = []) := by
    intro slot missing hmissing hnumbers
    cases hlookup : env.slots.lookup slot with
    | none => exact fun value hrun => absurd hrun (hmissing value)
    | some value => exact .ok ⟨hwordless.lookup hlookup, hnumbers⟩
  have herror : ∀ {rendered : Except Fault String} {fault : String → Fault} (value : Value),
      (rendered >>= fun text => (.error (fault text) : Except Fault Value)) ≠ .ok value := by
    intro rendered fault value hrun
    obtain ⟨_, _, hrun⟩ := exists_of_bind_eq_ok hrun
    cases hrun
  unfold Env.pointerTo
  split
  · split
    · exact .ok ⟨rfl, rfl⟩
    · exact hslot herror rfl
  · exact hslot herror rfl
  · exact hslot herror rfl
  · exact fun value hrun => absurd hrun (herror value)

/-- A value that is no word and has just been found. -/
theorem hands_of_none (builder : Builder) {value : Value} (hvalue : value.word? = none) :
    Hands [] [] builder (value, builder) :=
  ⟨.refl builder, wordsIn_singleton hvalue⟩

variable {builder : Builder}

theorem Env.Wordless.heldPointer (hwordless : env.Wordless) (temp : Temp) :
    Ensures (env.heldPointer builder temp) (Hands [] [] builder) := by
  refine (hwordless.pointerToAddress temp).bind fun pointer hpointer => .pure ?_
  have haddress : Hands [] [] builder (builder.push (.load IrType.i64 pointer)) :=
    (hands_of_none builder hpointer).push rfl
  exact haddress.push rfl

/-- A constant is held as it is, and nothing else comes with words. -/
theorem Env.Wordless.load (hwordless : env.Wordless) (operand : Operand) :
    Ensures (env.load builder operand) (Hands [] (numbersIn [operand]) builder) := by
  unfold Env.load
  split
  · next text =>
    split
    · next value hvalue =>
      refine .ok ⟨.refl builder, ?_⟩
      simp [wordsIn, Value.word?, numbersIn, constantsIn, Operand.constant?, hvalue]
    · exact .error
  · next index =>
    exact .ok ((builder.push_hands (.firstChar (.global (Code.stringLabel index)
      (env.strings.getD index .void)) (env.strings.getD index .void))).push rfl)
  · next temp =>
    exact (hwordless.heldPointer temp).bind fun answer hpointer => .pure (hpointer.push rfl)
  · refine (hwordless.pointerTo _).bind fun pointer ⟨hpointer, hnumbers⟩ => .pure ?_
    rw [hnumbers]
    exact (hands_of_none builder hpointer).push rfl

theorem Env.Wordless.store (hwordless : env.Wordless) (value : Value) (operand : Operand) :
    Ensures (env.store builder value operand) (builder.Spends (wordsIn [value])) := by
  unfold Env.store
  split
  · next temp =>
    refine (hwordless.heldPointer temp).bind fun answer hpointer => ?_
    intro after hrun
    exact hpointer.spends.trans (answer.2.store_spends value hpointer.held after hrun)
  · refine (hwordless.pointerTo _).bind fun pointer ⟨hpointer, _⟩ => ?_
    exact builder.store_spends value (wordsIn_singleton hpointer)

theorem Env.Wordless.addressOf (hwordless : env.Wordless) (operand : Operand) :
    Ensures (env.addressOf builder operand) (Hands [] (numbersIn [operand]) builder) := by
  unfold Env.addressOf
  split
  · next temp =>
    refine (hwordless.pointerToAddress temp).bind fun pointer hpointer => .pure ?_
    exact (hands_of_none builder hpointer).push rfl
  · refine (hwordless.pointerTo _).bind fun pointer ⟨hpointer, hnumbers⟩ => .pure ?_
    rw [hnumbers]
    exact (hands_of_none builder hpointer).push rfl

theorem Env.Wordless.recordPointer (hwordless : env.Wordless) (operand : Operand) (type : IrType) :
    Ensures (env.recordPointer builder operand type) (Hands [] (numbersIn [operand]) builder) := by
  unfold Env.recordPointer
  split
  · next temp =>
    exact (hwordless.addressOf (.address temp)).bind fun answer haddress =>
      .pure (haddress.push rfl)
  · refine (hwordless.pointerTo _).bind fun pointer ⟨hpointer, hnumbers⟩ => .pure ?_
    rw [hnumbers]
    exact hands_of_none builder hpointer

end Operands

/-! ## Quads -/

section Quads

variable {env : Env} {builder : Builder}

/-- What is held is stored. -/
theorem Env.Wordless.store_hands (hwordless : env.Wordless) {spent held : List Int}
    {answer : Value × Builder} (hands : Hands spent held builder answer) (target : Operand) :
    Ensures (env.store answer.2 answer.1 target) (builder.Spends (spent ++ held)) := by
  intro after hrun
  have hstore := hwordless.store answer.1 target after hrun
  rw [hands.held] at hstore
  exact hands.spends.trans hstore

/-- What is held is stored where a pointer leads that is no word. -/
theorem Hands.store {spent held : List Int} {answer : Value × Builder}
    (hands : Hands spent held builder answer) {target : Value} (htarget : target.word? = none) :
    Ensures (answer.2.store answer.1 target) (builder.Spends (spent ++ held)) := by
  intro after hrun
  have hstore := answer.2.store_spends answer.1 (wordsIn_singleton htarget) after hrun
  rw [hands.held] at hstore
  exact hands.spends.trans hstore

theorem getArg_spends (hwordless : env.Wordless) (position count : Int) (target : Operand)
    (isRecord : Bool) :
    Ensures (instr env builder (.getArg position count target isRecord)) (builder.Spends []) := by
  simp only [instr]
  split
  · exact .error
  · next param hparam =>
    have hmem : param ∈ env.function.params := by
      split at hparam
      · cases hparam
      · exact List.mem_of_getElem? hparam
    have hnone := hwordless.params param hmem
    split
    · refine (Ensures.trivially _).bind fun type _ => ?_
      refine (hwordless.pointerTo target).bind fun pointer hpointer => ?_
      have hcast : Hands [] [] builder (builder.push (.cast .bitcast param (.pointer type))) :=
        (hands_of_none builder hnone).push rfl
      exact (@Hands.push _ _ _ _ hcast (.load type _) rfl).store hpointer.1
    · exact hwordless.store_hands (toWord_hands builder hnone) target

theorem setRet_spends (hwordless : env.Wordless) (source : Operand) (isRecord : Bool) :
    Ensures (instr env builder (.setRet source isRecord)) (builder.Spends (numbersIn [source])) := by
  simp only [instr]
  cases hplace : env.result? with
  | none =>
      split
      · exact (hwordless.recordPointer source _).bind fun _ _ => .error
      · exact (hwordless.load source).bind fun _ _ => .error
  | some place =>
      have hnone := hwordless.place place (by simp [hplace])
      split
      · refine (hwordless.recordPointer source _).bind fun answer hpointer => ?_
        have hvalue := @Hands.push _ _ _ _ hpointer (.load env.function.result _) rfl
        have hstore := hvalue.store hnone
        rwa [List.append_nil] at hstore
      · refine (hwordless.load source).bind fun answer hword => ?_
        by_cases htext : (env.function.result == IrType.text) = true
        · simp only [htext, if_true]
          have hvalue := @Hands.push _ _ _ _ hword (.cast .intToPtr _ IrType.text) rfl
          have hstore := hvalue.store hnone
          rwa [List.append_nil] at hstore
        · simp only [htext]
          exact hword.store hnone

theorem getRet_spends (hwordless : env.Wordless)
    (hlast : ∀ value ∈ builder.last?, value.word? = none) (target : Operand) (isRecord : Bool) :
    Ensures (instr env builder (.getRet target isRecord)) (builder.Spends []) := by
  simp only [instr]
  split
  · exact .error
  · next value hvalue =>
    have hnone := hlast value hvalue
    split
    · exact (hwordless.pointerTo target).bind fun pointer hpointer =>
        (hands_of_none builder hnone).store hpointer.1
    · exact hwordless.store_hands (toWord_hands builder hnone) target

/-- A quad that is no jump and no part of passing arguments writes the words that it needs. -/
theorem instr_spends (hwordless : env.Wordless)
    (hlast : ∀ value ∈ builder.last?, value.word? = none) {quad : Code.Instr}
    (hphase : quad.phase = .idle) (hjump : quad.jumpTarget? = none) :
    Ensures (instr env builder quad) (builder.Spends (neededWords quad)) := by
  cases quad with
  | setArg => cases hphase
  | call => cases hphase
  | goto => cases hjump
  | ifZero => cases hjump
  | binary op target left right =>
      refine (hwordless.load left).bind fun first hfirst => ?_
      refine (hwordless.load right).bind fun second hsecond => ?_
      have hvalue := (hfirst.spends.trans hsecond.spends).hands
        (binary_hands second.2 op first.1 second.1)
      have hwords : wordsIn [first.1, second.1] = numbersIn [left, right] := by
        rw [wordsIn_cons, hfirst.held, hsecond.held]
        exact (numbersIn_append [left] [right]).symm
      rw [hwords] at hvalue
      exact hwordless.store_hands hvalue target
  | unary op target source =>
      refine (hwordless.load source).bind fun operand hoperand => ?_
      cases op with
      | neg =>
          have hvalue := hoperand.spends.hands
            (operand.2.push_hands (.arith .sub (.word 0) operand.1))
          have hwords : wordsIn [.word 0, operand.1] = 0 :: numbersIn [source] :=
            (wordsIn_cons _ _).trans (congrArg _ hoperand.held)
          intro after hrun
          refine (hwordless.store_hands hvalue target after hrun).perm ?_
          rw [List.append_nil]
          exact (List.Perm.of_eq hwords).trans (List.perm_append_singleton _ _).symm
      | not =>
          have hvalue := hoperand.spends.hands
            (operand.2.push_hands (.arith .xor operand.1 (.word 1)))
          have hwords : wordsIn [operand.1, .word 1] = numbersIn [source] ++ [1] :=
            (wordsIn_cons _ _).trans (congrArg (· ++ [1]) hoperand.held)
          intro after hrun
          refine (hwordless.store_hands hvalue target after hrun).perm ?_
          rw [List.append_nil]
          exact .of_eq hwords
  | assign target source =>
      refine (hwordless.load source).bind fun value hvalue => ?_
      intro after hrun
      exact (hwordless.store_hands hvalue target after hrun).perm (.of_eq (List.append_nil _).symm)
  | index target base offset =>
      simp only [instr]
      split
      · exact .error
      · next bytes hbytes =>
        refine (hwordless.addressOf base).bind fun address haddress => ?_
        have hsum := haddress.spends.hands
          (address.2.push_hands (.arith .add address.1 (.word bytes)))
        have hwords : wordsIn [address.1, .word bytes] = numbersIn [base] ++ [bytes] :=
          (wordsIn_cons _ _).trans (congrArg (· ++ [bytes]) haddress.held)
        refine (hwordless.pointerToAddress target).bind fun pointer hpointer => ?_
        intro after hrun
        refine (hsum.store hpointer after hrun).perm ?_
        rw [List.append_nil, neededWords, ownWords, hbytes]
        exact .of_eq hwords
  | getArg position count target isRecord => exact getArg_spends hwordless _ _ _ _
  | setRet source isRecord =>
      intro after hrun
      exact (setRet_spends hwordless source isRecord after hrun).perm
        (.of_eq (List.append_nil _).symm)
  | getRet target isRecord => exact getRet_spends hwordless hlast target isRecord
  | output source type =>
      refine (hwordless.load source).bind fun word hword => .pure ?_
      obtain ⟨spent, held, hvalue, hall⟩ := fromWord_hands word.2 word.1 type
      have hcall := (hword.spends.hands hvalue).push
        (show (Instr.call (outputRoutine type) .void _).operands = [_] from rfl)
      refine hcall.spends.perm (.of_eq ?_)
      rw [List.nil_append, hall, hword.held]
      exact (List.append_nil _).symm
  | input target type =>
      have hcall := builder.push_hands (.call (inputRoutine type) IrType.i64 [])
      exact hwordless.store_hands hcall target
  | enter => exact .ok (.refl builder)
  | nop => exact .ok (.refl builder)
  | leave => exact .ok (.refl builder)

/-- The words that have been written and those that the next call will pass. -/
def Builder.words (builder : Builder) : List Int := wordsOf builder.written ++ wordsIn builder.args

/-- In a phase of a call, no result is a word, and outside of calls no argument is left over. -/
structure Builder.Clear (phase : CallPhase) (builder : Builder) : Prop where
  idle : phase ≠ .passing → builder.args = []
  last : ∀ value ∈ builder.last?, value.word? = none

/-- A builder after a quad that leads to a phase and needs some words. -/
structure Builder.Advances (phase : CallPhase) (words : List Int) (builder after : Builder) :
    Prop where
  clear : after.Clear phase
  words : after.words.Perm (builder.words ++ words)

variable {phase : CallPhase} {spent held needed : List Int}

theorem Builder.Spends.words_perm {after : Builder} (hspends : builder.Spends needed after) :
    after.words.Perm (builder.words ++ needed) := by
  rw [Builder.words, Builder.words, hspends.args, List.append_assoc]
  refine (hspends.written.append_right _).trans ?_
  rw [List.append_assoc]
  exact List.perm_append_comm.append_left _

/-- A quad that has nothing to do with calls is the end of one, if there was one. -/
theorem Builder.Clear.advances {after : Builder} (hclear : builder.Clear phase) {quad : Quad}
    (hadmits : phase.Admits quad) (hphase : quad.instr.phase = .idle)
    (hspends : builder.Spends needed after) : builder.Advances quad.instr.phase needed after := by
  have hnone := hclear.idle fun hpassing => (hadmits.passing hpassing).2 hphase
  exact ⟨⟨fun _ => hspends.args.trans hnone,
    fun value hvalue => hclear.last value (hspends.last ▸ hvalue)⟩, hspends.words_perm⟩

/-- A value that is held becomes the next argument. -/
theorem Hands.words_args {answer : Value × Builder} (hands : Hands spent held builder answer) :
    ({ answer.2 with args := answer.2.args ++ [answer.1] } : Builder).words.Perm
      (builder.words ++ (spent ++ held)) := by
  have hargs : ({ answer.2 with args := answer.2.args ++ [answer.1] } : Builder).words =
      answer.2.words ++ held := by
    rw [Builder.words, wordsIn_append, hands.held, ← List.append_assoc]
    rfl
  rw [hargs, ← List.append_assoc]
  exact hands.spends.words_perm.append_right _

theorem setArg_advances (hwordless : env.Wordless) (hclear : builder.Clear phase) (position : Int)
    (source : Operand) (type : Ty) :
    Ensures (instr env builder (.setArg position source type))
      (builder.Advances .passing (numbersIn [source])) := by
  have happend : ∀ {answer : Value × Builder} {spent held : List Int},
      Hands spent held builder answer → spent ++ held = numbersIn [source] →
        builder.Advances .passing (numbersIn [source])
          { answer.2 with args := answer.2.args ++ [answer.1] } := by
    intro answer spent held hands hwords
    exact ⟨⟨nofun, fun value hvalue => hclear.last value (hands.spends.last ▸ hvalue)⟩,
      hwords ▸ hands.words_args⟩
  simp only [instr]
  split
  · refine (hwordless.addressOf source).bind fun address haddress => .pure ?_
    exact happend (haddress.push rfl) (List.append_nil _)
  · refine (hwordless.load source).bind fun word hword => .pure ?_
    obtain ⟨spent, held, hvalue, hall⟩ := fromWord_hands word.2 word.1 type
    exact happend (hword.spends.hands hvalue) (hall.trans hword.held)

theorem call_advances (callee : String) :
    Ensures (instr env builder (.call callee)) (builder.Advances .called []) := by
  simp only [instr]
  split
  · exact .error
  · next function _ =>
    have hpush := builder.push_hands (.call function.name function.result builder.args)
    refine .pure ⟨⟨fun _ => rfl, ?_⟩, ?_⟩
    · rintro value ⟨⟩
      exact builder.push_word _
    · rw [List.append_nil]
      exact (List.Perm.of_eq (List.append_nil _)).trans hpush.spends.written

/-- A quad that is no jump leaves its words in what has been written or in the next call. -/
theorem instr_advances (hwordless : env.Wordless) (hclear : builder.Clear phase) {quad : Quad}
    (hadmits : phase.Admits quad) (hjump : quad.instr.jumpTarget? = none) :
    Ensures (instr env builder quad.instr)
      (builder.Advances quad.instr.phase (neededWords quad.instr)) := by
  by_cases hphase : quad.instr.phase = .idle
  · intro after hrun
    exact hclear.advances hadmits hphase
      (instr_spends hwordless hclear.last hphase hjump after hrun)
  · cases hinstr : quad.instr with
    | setArg position source type =>
        rw [show neededWords (.setArg position source type) = numbersIn [source] from
          List.append_nil _]
        exact setArg_advances hwordless hclear position source type
    | call callee => exact call_advances callee
    | _ => simp [hinstr, Code.Instr.phase] at hphase

/-- The last quad of a block, too. -/
theorem finish_advances (hwordless : env.Wordless) (hclear : builder.Clear phase) {quad : Quad}
    (hadmits : phase.Admits quad) (next? : Option String) :
    Ensures (finish env next? builder quad.instr) (fun answer =>
      builder.Advances quad.instr.phase (neededWords quad.instr) answer.2 ∧
        wordsIn answer.1.operands = []) := by
  have hidle := fun {words : List Int} {after : Builder} => @Builder.Clear.advances builder phase
    words after hclear quad hadmits
  cases hinstr : quad.instr with
  | goto target =>
      rw [hinstr] at hidle
      exact (Ensures.trivially _).bind fun _ _ => .pure ⟨hidle rfl (.refl _), rfl⟩
  | ifZero condition target =>
      rw [hinstr] at hidle
      simp only [finish]
      split
      · exact .error
      · refine (hwordless.load condition).bind fun value hvalue => ?_
        have hzero := hvalue.spends.hands
          (value.2.push_hands (.compare .eq value.1 (.word 0)))
        have hwords : wordsIn [value.1, .word 0] = numbersIn [condition] ++ [0] :=
          (wordsIn_cons _ _).trans (congrArg (· ++ [0]) hvalue.held)
        refine (Ensures.trivially _).bind fun _ _ => .pure ⟨hidle rfl ?_, hzero.held⟩
        exact hzero.spends.perm (.of_eq hwords)
  | leave procedure =>
      rw [hinstr] at hidle
      simp only [finish]
      split
      · exact .ok ⟨hidle rfl (.refl _), rfl⟩
      · next place hplace =>
        have hvalue := (hands_of_none builder (hwordless.place place (by simp [hplace]))).push
          (show (Instr.load env.function.result place).operands = [place] from rfl)
        exact .ok ⟨hidle rfl hvalue.spends, hvalue.held⟩
  | _ =>
      have hadvances := instr_advances hwordless hclear hadmits (by rw [hinstr]; rfl)
      rw [hinstr] at hadvances
      refine hadvances.bind fun after hafter => ?_
      split
      · exact .pure ⟨hafter, rfl⟩
      · exact .error

/-- The words of a stretch of quads. Only the last one of them is a jump, and what has been passed has
been used. -/
theorem quads_advance (hwordless : env.Wordless) (next? : Option String) {code : List Quad}
    (hunbroken : Unbroken phase code)
    (hjumps : ∀ quad ∈ code.dropLast, quad.instr.jumpTarget? = none)
    (hclear : builder.Clear phase) :
    Ensures (quads env next? builder code) (fun answer =>
      builder.Advances .idle (code.flatMap fun quad => neededWords quad.instr) answer.2 ∧
        wordsIn answer.1.operands = []) := by
  induction code generalizing phase builder with
  | nil => exact .error
  | cons quad rest ih =>
      rw [List.flatMap_cons]
      cases rest with
      | nil =>
          rw [List.flatMap_nil, List.append_nil]
          intro answer hrun
          obtain ⟨⟨hafter, hwords⟩, hends⟩ :=
            finish_advances hwordless hclear hunbroken.1 next? answer hrun
          exact ⟨⟨⟨fun _ => hafter.idle hunbroken.2, hafter.last⟩, hwords⟩, hends⟩
      | cons next rest =>
          rw [List.dropLast_cons_cons, List.forall_mem_cons] at hjumps
          refine (instr_advances hwordless hclear hunbroken.1 hjumps.1).bind fun after hafter => ?_
          intro answer hrun
          obtain ⟨⟨hclear', hwords⟩, hends⟩ :=
            ih hunbroken.2 hjumps.2 hafter.clear answer hrun
          refine ⟨⟨hclear', ?_⟩, hends⟩
          rw [← List.append_assoc]
          exact hwords.trans (hafter.words.append_right _)

/-- The words of some blocks are those that their quads need. -/
theorem blocks_words (hwordless : env.Wordless) {parts : List Segment}
    (hunbroken : ∀ segment ∈ parts, Unbroken .idle segment.quads)
    (hjumps : ∀ segment ∈ parts, ∀ quad ∈ segment.quads.dropLast, quad.instr.jumpTarget? = none)
    (hclear : builder.Clear .idle) (hwritten : wordsOf builder.written = []) :
    Ensures (blocks env builder parts) (fun answer =>
      (answer.1.flatMap (·.words)).Perm
        ((parts.flatMap (·.quads)).flatMap fun quad => neededWords quad.instr) ∧
      answer.2.Clear .idle) := by
  induction parts generalizing builder with
  | nil => exact .ok ⟨.refl _, hclear⟩
  | cons segment rest ih =>
      rw [List.forall_mem_cons] at hunbroken hjumps
      have hstart : builder.words = [] := by
        rw [Builder.words, hwritten, hclear.idle nofun]
        rfl
      refine (quads_advance hwordless _ hunbroken.1 hjumps.1 hclear).bind
        fun answer ⟨⟨hafter, hwords⟩, hends⟩ => ?_
      refine (@ih { answer.2 with steps := [] } hunbroken.2 hjumps.2 ⟨hafter.idle, hafter.last⟩
        rfl).bind fun more ⟨hmore, hlast⟩ => .pure ⟨?_, hlast⟩
      rw [List.flatMap_cons, List.flatMap_cons, List.flatMap_append]
      refine List.Perm.append ?_ hmore
      rw [hstart, List.nil_append, Builder.words, hafter.idle nofun] at hwords
      rw [Block.words, hends]
      exact hwords

end Quads

/-! ## Functions -/

section Functions

variable {builder : Builder} {procedure : Procedure} {function : Function} {program : Program}

/-- The words that some quads need. -/
def neededOf (code : List Quad) : List Int := code.flatMap fun quad => neededWords quad.instr

/-- What some quads need are the numbers of their constants and what belongs to their forms. -/
theorem neededOf_perm {numbers : List Nat} (hwrites : procedure.Writes numbers)
    (hsmall : ∀ number ∈ numbers, number ≤ Token.maxInt) :
    (neededOf procedure.quads).Perm (numbers.map Int.ofNat ++
      procedure.quads.flatMap fun quad => ownWords quad.instr) := by
  have hnumbers : (procedure.quads.flatMap fun quad => numbersIn quad.instr.sources) =
      (Code.constantsOf procedure.quads).filterMap Text.readInt64? :=
    (List.filterMap_flatMap).symm
  have hread : (numbers.map toString).filterMap Text.readInt64? = numbers.map Int.ofNat := by
    rw [List.filterMap_map, ← List.filterMap_eq_map]
    exact List.filterMap_congr fun number hmem => Text.readInt64?_of_small (hsmall number hmem)
  refine (List.flatMap_append_perm _ _ _).symm.trans (List.Perm.append_right _ ?_)
  rw [hnumbers, ← hread]
  exact List.Perm.filterMap _ hwrites

/-- Storage is reserved without words. -/
theorem reserve_spends (builder : Builder) (places : List (Slot × IrType)) :
    builder.Spends [] (reserve builder places).2 ∧
      ∀ entry ∈ (reserve builder places).1, entry.2.word? = none := by
  induction places generalizing builder with
  | nil => exact ⟨.refl builder, by simp [reserve]⟩
  | cons place places ih =>
      obtain ⟨hspends, hentries⟩ := ih (builder.push (.alloca place.2)).2
      have hfirst := builder.push_hands (.alloca place.2)
      exact ⟨hfirst.spends.trans hspends,
        List.forall_mem_cons.2 ⟨builder.push_word (.alloca place.2), hentries⟩⟩

/-- So is the place for the result. -/
theorem resultPlace_spends {place? : Option Value} {after : Builder}
    (hresult : (if function.result == .void then (none, builder)
      else (some (builder.push (.alloca function.result)).1,
        (builder.push (.alloca function.result)).2)) = (place?, after)) :
    builder.Spends [] after ∧ ∀ place ∈ place?, place.word? = none := by
  split at hresult
  · cases hresult
    exact ⟨.refl builder, by simp⟩
  · cases hresult
    refine ⟨(builder.push_hands (.alloca function.result)).spends, ?_⟩
    rintro place ⟨⟩
    exact builder.push_word (.alloca function.result)

/-- The words of a function are those that its procedure needs. -/
theorem body_words {strings : List IrType} {functions : List (String × Function)}
    (hshaped : procedure.Shaped program) (hempty : function.blocks = [])
    (hparams : ∀ param ∈ function.params, param.word? = none) (hclear : builder.Clear .idle) :
    Ensures (body { program, strings, functions, function } builder procedure) (fun answer =>
      answer.1.words.Perm (neededOf procedure.quads) ∧ answer.2.Clear .idle) := by
  obtain ⟨hslots, hpointers⟩ := reserve_spends
    { builder with next := function.nextNumber, steps := [] } (storage procedure)
  generalize hreserve : reserve { builder with next := function.nextNumber, steps := [] }
    (storage procedure) = reserved at hslots hpointers
  obtain ⟨place?, after, hresult⟩ : ∃ place? after,
      (if function.result == .void then (none, reserved.2)
        else (some (reserved.2.push (.alloca function.result)).1,
          (reserved.2.push (.alloca function.result)).2)) = (place?, after) := ⟨_, _, rfl⟩
  obtain ⟨hplaced, hplace⟩ := resultPlace_spends hresult
  have hspends := hslots.trans hplaced
  have hwritten : wordsOf after.written = [] := List.perm_nil.1 hspends.written
  have hstart : after.Clear .idle := ⟨fun _ => hspends.args.trans (hclear.idle nofun),
    fun value hvalue => hclear.last value (hspends.last ▸ hvalue)⟩
  have hblocks := @blocks_words
    { program, strings, functions, function, slots := reserved.1, result? := place?,
      blocks := labelBlocks (segments procedure) } after ⟨hpointers, hplace, hparams⟩ _
    (unbroken_segments hshaped.unbroken)
    (fun segment hsegment quad hquad =>
      (goesOn_of_mem_segments hshaped.inner hsegment quad hquad).1) hstart hwritten
  rw [quads_segments] at hblocks
  simp only [body, hreserve, hresult, hempty, List.nil_append]
  exact hblocks.bind fun answer hanswer => .pure hanswer

end Functions

/-! ## Modules -/

section Modules

variable {program : Program} {strings : List IrType} {builder : Builder}

/-- Parameters are no words. -/
theorem params_wordless (unnamed : Nat) (types : List IrType) (formals : List Variable) :
    Ensures (params unnamed types formals) (fun values => ∀ value ∈ values, value.word? = none) := by
  induction types generalizing unnamed formals with
  | nil => exact .ok (by simp)
  | cons type types ih =>
      cases formals with
      | nil => exact .error
      | cons formal formals =>
          simp only [params]
          split
          · exact (ih _ formals).bind fun values hvalues =>
              .pure (List.forall_mem_cons.2 ⟨rfl, hvalues⟩)
          · exact (ih _ formals).bind fun values hvalues =>
              .pure (List.forall_mem_cons.2 ⟨rfl, hvalues⟩)

/-- A function that is declared for a procedure, without blocks and without words. -/
def Blank (procedure : Procedure) (entry : String × Function) : Prop :=
  entry.1 = procedure.name ∧ entry.2.blocks = [] ∧ ∀ param ∈ entry.2.params, param.word? = none

/-- A function that has just the words that a procedure needs. -/
def Function.Spells (procedure : Procedure) (function : Function) : Prop :=
  function.words.Perm (neededOf procedure.quads)

theorem signature_blank (procedure : Procedure) :
    Ensures (do return (procedure.name, ← signature procedure)) (Blank procedure) := by
  have hsignature : Ensures (signature procedure) (fun function =>
      function.blocks = [] ∧ ∀ param ∈ function.params, param.word? = none) := by
    refine (params_wordless 0 (IrType.ofParams procedure.params) procedure.formals).bind
      fun values hvalues => ?_
    exact .pure ⟨rfl, hvalues⟩
  exact hsignature.bind fun function hfunction => .pure ⟨rfl, hfunction⟩

/-- What stands under a key that is listed once is found there. -/
theorem lookup_reverse_eq_some {entries : List (String × Function)}
    (hkeys : (entries.map (·.1)).Nodup) {entry : String × Function} (hentry : entry ∈ entries) :
    entries.reverse.lookup entry.1 = some entry.2 := by
  have hkey : entry.1 ∈ entries.reverse.map (·.1) :=
    List.mem_map_of_mem (List.mem_reverse.2 hentry)
  obtain ⟨found, hfound, hmem⟩ := exists_lookup_eq_some hkey
  have hsame := List.inj_on_of_nodup_map hkeys (List.mem_reverse.1 hmem) hentry rfl
  rw [hfound, ← hsame]

/-- The functions of a program get their words one after the other. -/
theorem bodies_words {procedures : List Procedure} {front back : List (String × Function)}
    (hshaped : ∀ procedure ∈ procedures, procedure.Shaped program)
    (hkeys : ((front ++ back).map (·.1)).Nodup) (hblank : List.Forall₂ Blank procedures back)
    (hclear : builder.Clear .idle) :
    Ensures (bodies program strings (front ++ back) builder procedures) (fun functions =>
      ∃ written, functions = front ++ written ∧
        List.Forall₂ (fun procedure entry => entry.2.Spells procedure) procedures written) := by
  induction hblank generalizing front builder with
  | nil => exact .ok ⟨[], rfl, .nil⟩
  | @cons procedure entry rest back hfirst _ ih =>
      rw [List.forall_mem_cons] at hshaped
      obtain ⟨name, function⟩ := entry
      obtain ⟨rfl, hempty, hparams⟩ := hfirst
      have hlookup := lookup_reverse_eq_some hkeys (List.mem_append_right _ List.mem_cons_self)
      have hdistinct := hkeys
      rw [List.map_append, List.map_cons, List.nodup_append, List.nodup_cons] at hdistinct
      simp only [bodies, hlookup]
      refine (body_words hshaped.1 hempty hparams hclear).bind fun answer hanswer => ?_
      rw [replaceLast_append (fun hmem => hdistinct.2.2 _ hmem _ List.mem_cons_self rfl)
        hdistinct.2.1.1, List.append_cons]
      intro functions hfunctions
      obtain ⟨written, rfl, hwritten⟩ := ih hshaped.2 (by simpa using hkeys) hanswer.2 functions
        hfunctions
      exact ⟨(procedure.name, answer.1) :: written, by simp, .cons hanswer.1 hwritten⟩

/-- The words in the functions of a module are those that the procedures of its program need. -/
theorem Module.ofProgram_spells (hfitting : program.Fitting) (hshaped : program.Shaped) :
    Ensures (Module.ofProgram program) (fun module => ∃ functions,
      module.functions = runtime ++ functions ∧
        List.Forall₂ (fun procedure function => function.Spells procedure) program.procedures
          functions) := by
  refine (Ensures.trivially _).bind fun contents _ => ?_
  refine (Ensures.mapM fun procedure _ => signature_blank procedure).bind fun declared hblank => ?_
  have hkeys : (declared.map (·.1)).Nodup := by
    have hnames := List.forall₂_map_left_iff.2 (List.forall₂_map_right_iff.2
      (hblank.imp fun _ _ hentry => hentry.1.symm))
    rw [List.forall₂_eq_eq_eq] at hnames
    exact hnames ▸ hfitting.names
  refine (@bodies_words program _ {} _ [] declared hshaped hkeys hblank
    ⟨fun _ => rfl, nofun⟩).bind fun functions ⟨written, hfunctions, hwritten⟩ => .pure ?_
  obtain rfl : functions = written := hfunctions
  exact ⟨functions.map (·.2), rfl, List.forall₂_map_right_iff.2 hwritten⟩

end Modules

/-! ## Words as they are written -/

/-- The value of a hexadecimal digit, of which the letters are capital ones. -/
def hexValue (c : Char) : Nat :=
  if c.isDigit then c.toNat - '0'.toNat else c.toNat - 'A'.toNat + 10

/-- The word that is written in a module, in decimal or, behind a mark, in hexadecimal. -/
def readWord? (text : String) : Option Int :=
  match text.toList with
  | 'u' :: '0' :: 'x' :: digits =>
    some ((digits.foldl (fun value c => 16 * value + hexValue c) 0 : Nat) : Int)
  | _ => Text.readInt? text

/-- Hexadecimal digits add up to the number that they are those of. -/
theorem foldl_hexValue (value : Nat) :
    ((Nat.toDigits 16 value).map Char.toUpper).foldl (fun value c => 16 * value + hexValue c) 0 =
      value := by
  have hdigit : ∀ digit < 16, hexValue digit.digitChar.toUpper = digit := by decide
  induction value using Nat.strongRecOn with
  | ind value ih =>
      rw [Nat.toDigits_eq_if (by decide)]
      split
      next hlt => simpa using hdigit value hlt
      next hle =>
        rw [List.map_append, List.foldl_append, ih (value / 16) (by omega), List.map_singleton,
          List.foldl_cons, List.foldl_nil, hdigit _ (Nat.mod_lt _ (by decide))]
        omega

theorem readWord?_of_head {text : String} (hhead : text.toList.head? ≠ some 'u') :
    readWord? text = Text.readInt? text := by
  unfold readWord?
  split
  next heq => exact absurd (by rw [heq]; rfl) hhead
  next => rfl

/-- A word is read as it is written. -/
theorem readWord?_renderWord (word : Int) : readWord? (renderWord word) = some word := by
  cases word with
  | ofNat value =>
      simp only [renderWord]
      split
      next =>
        have hlist : ("u0x" ++ String.ofList ((Nat.toDigits 16 value).map Char.toUpper)).toList =
            'u' :: '0' :: 'x' :: (Nat.toDigits 16 value).map Char.toUpper := by simp
        rw [readWord?, hlist]
        exact congrArg (fun value : Nat => some (value : Int)) (foldl_hexValue value)
      next =>
        refine (readWord?_of_head fun hhead => ?_).trans (Text.readInt?_repr value)
        have hmem : 'u' ∈ Nat.toDigits 10 value := Nat.toList_repr ▸ List.mem_of_head? hhead
        exact absurd (Text.isDigit_of_mem value hmem) (by decide)
  | negSucc value =>
      refine (readWord?_of_head ?_).trans (Text.readInt?_toString (.negSucc value))
      simp [renderWord, Int.toString_eq_repr, Int.repr]

end Shanty.Target.Llvm
