/-
# Emission for LLVM succeeds: instructions

An instruction of LLVM is well typed if its operands have the types that it asks for. Emission checks
this where a value is stored and takes it for granted elsewhere, so it is shown for all instructions.

What the quads of a procedure can refer to is at hand while its function is written: there is a pointer
of the right type to each piece of storage, each procedure has a function with its signature, and each
label has a block. Then a quad that fits becomes well-typed instructions. The arguments and the
result that are pending in the quads are pending in the builder with the types of LLVM that belong to
theirs.
-/

import Shanty.Proofs.Target.Machines
import Shanty.Proofs.Tree.Literals
import Shanty.Target.Llvm.Emission

namespace Shanty.Target.Llvm

open Code (Operand Quad Procedure Program Site Pending Label Variable Temp labelsOf slotWidth)

/-! ## Typing -/

/-- The name of a function, the type of its result and the types of its parameters. -/
abbrev Signature := String × IrType × List IrType

/-- The signature of a function. -/
def Function.typing (function : Function) : Signature :=
  (function.name, function.result, function.params.map (·.type))

/-- An instruction whose operands have the right types, where functions with some signatures can be
called. -/
inductive Instr.Typed (signatures : List Signature) : Instr → Prop
  | alloca {type : IrType} : Typed signatures (.alloca type)
  | load {type : IrType} {source : Value} :
      source.type = .pointer type → Typed signatures (.load type source)
  | store {value target : Value} :
      target.type = .pointer value.type → Typed signatures (.store value target)
  | arith {op : ArithOp} {left right : Value} :
      left.type = IrType.i64 → right.type = IrType.i64 → Typed signatures (.arith op left right)
  | compare {predicate : Predicate} {left right : Value} :
      left.type = IrType.i64 → right.type = IrType.i64 →
      Typed signatures (.compare predicate left right)
  | zext {value : Value} :
      value.type = .int 1 → Typed signatures (.cast .zext value IrType.i64)
  | intToPtr {value : Value} {target : IrType} :
      value.type = IrType.i64 → Typed signatures (.cast .intToPtr value (.pointer target))
  | ptrToInt {value : Value} {target : IrType} :
      value.type = .pointer target → Typed signatures (.cast .ptrToInt value IrType.i64)
  | bitcast {value : Value} {source target : IrType} :
      value.type = .pointer source → Typed signatures (.cast .bitcast value (.pointer target))
  | firstChar {string : Value} {length : Nat} :
      string.type = .pointer (.array length (.int 8)) →
      Typed signatures (.firstChar string (.array length (.int 8)))
  | call {function : String} {result : IrType} {args : List Value} :
      (function, result, args.map (·.type)) ∈ signatures →
      Typed signatures (.call function result args)

/-- What ends a block of a function with a result is well typed. -/
inductive Terminator.Typed (result : IrType) : Terminator → Prop
  | retVoid : result = .void → Typed result (.ret none)
  | ret {value : Value} : value.type = result → Typed result (.ret (some value))
  | jump {block : String} : Typed result (.jump block)
  | branch {condition : Value} {ifTrue ifFalse : String} :
      condition.type = .int 1 → Typed result (.branch condition ifTrue ifFalse)

/-- A block of a function with a result is well typed. -/
structure Block.Typed (signatures : List Signature) (result : IrType) (block : Block) : Prop where
  steps : ∀ step ∈ block.steps, step.instr.Typed signatures
  terminator : block.terminator.Typed result

/-- A function is well typed. -/
def Function.Typed (signatures : List Signature) (function : Function) : Prop :=
  ∀ block ∈ function.blocks, block.Typed signatures function.result

/-- A module is well typed. -/
def Module.Typed (module : Module) : Prop :=
  ∀ function ∈ module.functions, function.Typed (module.functions.map (·.typing))

/-! ## Types -/

/-- The type of a parameter. -/
def IrType.ofParam : Ty → IrType
  | .record _ _ _ => .pointer i64
  | type => ofTy type

theorem IrType.ofParams_eq (types : List Ty) : IrType.ofParams types = types.map IrType.ofParam := by
  induction types with
  | nil => rfl
  | cons type types ih => cases type <;> simp only [ofParams, List.map_cons, ofParam, ih]

@[simp]
theorem IrType.ofWidth_slot : IrType.ofWidth slotWidth = IrType.i64 := rfl

theorem IrType.ofTy_of_isRecord {type : Ty} (hrecord : type.isRecord = true) :
    IrType.ofTy type = .ofWidth type.size ∧ IrType.ofParam type = .pointer IrType.i64 := by
  cases type with
  | record => exact ⟨rfl, rfl⟩
  | _ => cases hrecord

/-- A value that is neither a record nor nothing is a word or a pointer to characters. -/
theorem IrType.ofTy_of_storable {type : Ty} (hstorable : type.isStorable = true)
    (hrecord : type.isRecord = false) :
    IrType.ofParam type = IrType.ofTy type ∧ type.size = slotWidth ∧
      (type = .string ∧ IrType.ofTy type = IrType.text ∨
        type ≠ .string ∧ IrType.ofTy type = IrType.i64) := by
  cases type with
  | int => exact ⟨rfl, rfl, .inr ⟨by simp, rfl⟩⟩
  | bool => exact ⟨rfl, rfl, .inr ⟨by simp, rfl⟩⟩
  | string => exact ⟨rfl, rfl, .inl ⟨rfl, rfl⟩⟩
  | record => cases hrecord
  | _ => cases hstorable

/-! ## Builders -/

/-- The code of a builder is well typed, and what is pending has its type. -/
structure Builder.Holds (signatures : List Signature) (pending : Pending) (builder : Builder) :
    Prop where
  steps : ∀ step ∈ builder.steps, step.instr.Typed signatures
  args : builder.args.map (·.type) = IrType.ofParams pending.args
  last : ∀ type, pending.last = some type →
    ∃ value, builder.last? = some value ∧ value.type = .ofTy type

section Builders

variable {signatures : List Signature} {pending : Pending} {builder : Builder}

/-- What is expected of a computation of a value with a type. -/
def Gives (signatures : List Signature) (pending : Pending) (type : IrType)
    (answer : Value × Builder) : Prop :=
  answer.1.type = type ∧ answer.2.Holds signatures pending

theorem Builder.push_gives (hholds : builder.Holds signatures pending) {instr : Instr}
    (htyped : instr.Typed signatures) : Gives signatures pending instr.type (builder.push instr) := by
  unfold Builder.push
  split
  · exact ⟨rfl, List.forall_mem_cons.2 ⟨htyped, hholds.steps⟩, hholds.args, hholds.last⟩
  · exact ⟨rfl, List.forall_mem_cons.2 ⟨htyped, hholds.steps⟩, hholds.args, hholds.last⟩

/-- A value can be stored where there is room for its type. -/
theorem Builder.store_yields (hholds : builder.Holds signatures pending) {value target : Value}
    (htype : target.type = .pointer value.type) :
    Yields (builder.store value target) (·.Holds signatures pending) := by
  simp only [Builder.store, htype, beq_self_eq_true, if_true]
  exact .ok (Builder.push_gives hholds (.store htype)).2

theorem fromWord_gives (hholds : builder.Holds signatures pending) {word : Value}
    (hword : word.type = IrType.i64) {type : Ty} (hstorable : type.isStorable = true)
    (hrecord : type.isRecord = false) :
    Gives signatures pending (IrType.ofTy type) (fromWord builder word type) := by
  rcases (IrType.ofTy_of_storable hstorable hrecord).2.2 with ⟨rfl, htext⟩ | ⟨hne, hi64⟩
  · exact Builder.push_gives hholds (.intToPtr hword)
  · rw [hi64]
    unfold fromWord
    split
    · exact absurd rfl hne
    · exact ⟨hword, hholds⟩

theorem toWord_gives (hholds : builder.Holds signatures pending) {value : Value} {type : Ty}
    (htype : value.type = IrType.ofTy type) (hstorable : type.isStorable = true)
    (hrecord : type.isRecord = false) :
    Gives signatures pending IrType.i64 (toWord builder value) := by
  rcases (IrType.ofTy_of_storable hstorable hrecord).2.2 with ⟨_, htext⟩ | ⟨_, hi64⟩
  · rw [htext] at htype
    simp only [toWord, htype, beq_self_eq_true, if_true]
    exact Builder.push_gives hholds (.ptrToInt htype)
  · rw [hi64] at htype
    have hne : (IrType.i64 == IrType.text) = false := rfl
    simp only [toWord, htype, hne, Bool.false_eq_true, if_false]
    exact ⟨htype, hholds⟩

theorem comparison_gives (hholds : builder.Holds signatures pending) (predicate : Predicate)
    {left right : Value} (hleft : left.type = IrType.i64) (hright : right.type = IrType.i64) :
    Gives signatures pending IrType.i64 (binary.comparison builder left right predicate) := by
  have hbit := Builder.push_gives hholds
    (@Instr.Typed.compare signatures predicate left right hleft hright)
  exact Builder.push_gives hbit.2 (.zext hbit.1)

theorem binary_gives (hholds : builder.Holds signatures pending) (op : Code.BinaryOp)
    {left right : Value} (hleft : left.type = IrType.i64) (hright : right.type = IrType.i64) :
    Gives signatures pending IrType.i64 (binary builder op left right) := by
  have harith : ∀ op : ArithOp,
      Gives signatures pending IrType.i64 (builder.push (.arith op left right)) := by
    intro op
    obtain ⟨htype, hholds'⟩ := Builder.push_gives hholds (@Instr.Typed.arith signatures op _ _ hleft hright)
    exact ⟨htype.trans hleft, hholds'⟩
  cases op with
  | add => exact harith .add
  | sub => exact harith .sub
  | mult => exact harith .mul
  | div => exact harith .sdiv
  | and => exact harith .and
  | or => exact harith .or
  | eq => exact comparison_gives hholds .eq hleft hright
  | neq => exact comparison_gives hholds .ne hleft hright
  | lt => exact comparison_gives hholds .slt hleft hright
  | gt => exact comparison_gives hholds .sgt hleft hright
  | lte => exact comparison_gives hholds .sle hleft hright
  | gte => exact comparison_gives hholds .sge hleft hright

end Builders

/-! ## Operands -/

/-- What the quads of a site can refer to is at hand. -/
structure Env.Serves (signatures : List Signature) (labels : List Label) (site : Site) (env : Env) :
    Prop where
  globals : env.program.globals = site.globals
  vars : ∀ var ∈ site.vars, ∃ value, env.slots.lookup var.slot = some value ∧
    value.type = .pointer (.ofWidth var.width)
  temps : ∀ temp ∈ site.temps, ∃ value, env.slots.lookup temp.slot = some value ∧
    value.type = .pointer (.ofWidth temp.width)
  addresses : ∀ temp ∈ site.addresses, ∃ value, env.slots.lookup temp.slot = some value ∧
    value.type = .pointer IrType.i64
  strings : ∀ index < site.strings, ∃ length, env.strings.getD index .void = .array length (.int 8)
  functions : ∀ callee params result, site.signature? callee = some (params, result) →
    ∃ function, env.functions.lookup callee = some function ∧ function.result = .ofTy result ∧
      (function.name, function.result, IrType.ofParams params) ∈ signatures
  params : env.function.params.map (·.type) = IrType.ofParams site.params
  result : env.function.result = .ofTy site.result
  place : site.result = .void ∧ env.result? = none ∨
    site.result.isStorable = true ∧
      ∃ place, env.result? = some place ∧ place.type = .pointer env.function.result
  blocks : ∀ label ∈ labels, ∃ block, env.blockOf label = .ok block
  runtime : runtime.map (·.typing) ⊆ signatures

section Operands

variable {signatures : List Signature} {labels : List Label} {site : Site} {env : Env}
  {pending : Pending} {builder : Builder} {operand : Operand} {width : Int64}

/-- An operand that is stored and is not reached by an address has a pointer to it. -/
theorem Env.Serves.exists_pointerTo (hserves : env.Serves signatures labels site)
    (hstores : site.Stores width operand) :
    (∃ temp ∈ site.addresses, operand = .address temp) ∨
      ∃ value, env.pointerTo operand = .ok value ∧ value.type = .pointer (.ofWidth width) ∧
        ∀ temp, operand ≠ .address temp := by
  cases operand with
  | constant => cases hstores.2
  | string => cases hstores.2
  | nothing => exact hstores.1.elim
  | address temp => exact .inl ⟨temp, hstores.1, rfl⟩
  | temp temp =>
      obtain ⟨⟨hmem, rfl⟩, _⟩ := hstores
      obtain ⟨value, hlookup, htype⟩ := hserves.temps temp hmem
      exact .inr ⟨value, by simp [Env.pointerTo, hlookup], htype, by simp⟩
  | var var =>
      obtain ⟨⟨hmem, rfl⟩, _⟩ := hstores
      by_cases hglobal : var ∈ env.program.globals
      · exact .inr ⟨globalValue var, by simp [Env.pointerTo, hglobal], rfl, by simp⟩
      · have hvar : var ∈ site.vars := by
          rw [hserves.globals] at hglobal
          exact hmem.resolve_left hglobal
        obtain ⟨value, hlookup, htype⟩ := hserves.vars var hvar
        exact .inr ⟨value, by simp [Env.pointerTo, hglobal, hlookup], htype, by simp⟩

theorem Env.Serves.pointerToAddress_eq (hserves : env.Serves signatures labels site) {temp : Temp}
    (hmem : temp ∈ site.addresses) :
    ∃ value, env.pointerToAddress temp = .ok value ∧ value.type = .pointer IrType.i64 := by
  obtain ⟨value, hlookup, htype⟩ := hserves.addresses temp hmem
  exact ⟨value, by simp [Env.pointerToAddress, hlookup], htype⟩

theorem Env.Serves.heldPointer_yields (hserves : env.Serves signatures labels site)
    (hholds : builder.Holds signatures pending) {temp : Temp} (hmem : temp ∈ site.addresses) :
    Yields (env.heldPointer builder temp) (Gives signatures pending (.pointer IrType.i64)) := by
  obtain ⟨pointer, hpointer, htype⟩ := hserves.pointerToAddress_eq hmem
  have haddress := Builder.push_gives hholds (.load htype)
  rw [Env.heldPointer, hpointer]
  exact .pure (Builder.push_gives haddress.2 (.intToPtr haddress.1))

/-- The word that an operand has as its value can be loaded. -/
theorem Env.Serves.load_yields (hserves : env.Serves signatures labels site)
    (hholds : builder.Holds signatures pending) (hhas : site.Has slotWidth operand) :
    Yields (env.load builder operand) (Gives signatures pending IrType.i64) := by
  cases operand with
  | constant text =>
      obtain ⟨_, value, hsmall, rfl⟩ := hhas
      simp only [Env.load, Text.readInt64?_of_small hsmall]
      exact .ok ⟨rfl, hholds⟩
  | string index =>
      obtain ⟨length, hcontent⟩ := hserves.strings index hhas.2
      have hfirst := Builder.push_gives hholds (@Instr.Typed.firstChar signatures
        (.global (Code.stringLabel index) (.array length (.int 8))) length rfl)
      simp only [Env.load, hcontent]
      exact .ok (Builder.push_gives hfirst.2 (.ptrToInt hfirst.1))
  | nothing => exact hhas.elim
  | address temp =>
      refine (hserves.heldPointer_yields hholds hhas).bind fun answer hpointer => ?_
      exact .pure (Builder.push_gives hpointer.2 (.load hpointer.1))
  | _ =>
      obtain ⟨_, _, heq⟩ | ⟨pointer, hpointer, htype, _⟩ := hserves.exists_pointerTo ⟨hhas, rfl⟩
      · cases heq
      · simp only [Env.load, hpointer]
        exact .pure (Builder.push_gives hholds (.load htype))

/-- A word can be stored in an operand. -/
theorem Env.Serves.store_yields (hserves : env.Serves signatures labels site)
    (hholds : builder.Holds signatures pending) {value : Value} (hvalue : value.type = IrType.i64)
    (hstores : site.Stores slotWidth operand) :
    Yields (env.store builder value operand) (·.Holds signatures pending) := by
  obtain ⟨temp, hmem, rfl⟩ | ⟨pointer, hpointer, htype, hne⟩ := hserves.exists_pointerTo hstores
  · refine (hserves.heldPointer_yields hholds hmem).bind fun answer hpointer => ?_
    exact Builder.store_yields hpointer.2 (hpointer.1.trans (by rw [hvalue]))
  · unfold Env.store
    split
    · exact absurd rfl (hne _)
    · rw [hpointer]
      exact Builder.store_yields hholds (htype.trans (by rw [hvalue, IrType.ofWidth_slot]))

/-- The address of an operand can be computed. -/
theorem Env.Serves.addressOf_yields (hserves : env.Serves signatures labels site)
    (hholds : builder.Holds signatures pending) (hstores : site.Stores width operand) :
    Yields (env.addressOf builder operand) (Gives signatures pending IrType.i64) := by
  obtain ⟨temp, hmem, rfl⟩ | ⟨pointer, hpointer, htype, hne⟩ := hserves.exists_pointerTo hstores
  · obtain ⟨pointer, hpointer, htype⟩ := hserves.pointerToAddress_eq hmem
    simp only [Env.addressOf, hpointer]
    exact .pure (Builder.push_gives hholds (.load htype))
  · unfold Env.addressOf
    split
    · exact absurd rfl (hne _)
    · rw [hpointer]
      exact .pure (Builder.push_gives hholds (.ptrToInt htype))

/-- The pointer to a record can be computed. -/
theorem Env.Serves.recordPointer_yields (hserves : env.Serves signatures labels site)
    (hholds : builder.Holds signatures pending) (hstores : site.Stores width operand) :
    Yields (env.recordPointer builder operand (.ofWidth width))
      (Gives signatures pending (.pointer (.ofWidth width))) := by
  obtain ⟨temp, hmem, rfl⟩ | ⟨pointer, hpointer, htype, hne⟩ := hserves.exists_pointerTo hstores
  · refine (hserves.addressOf_yields hholds hstores).bind fun answer haddress => ?_
    exact .pure (Builder.push_gives haddress.2 (.intToPtr haddress.1))
  · unfold Env.recordPointer
    split
    · exact absurd rfl (hne _)
    · rw [hpointer]
      exact .pure ⟨htype, hholds⟩

end Operands

/-! ## Quads -/

section Quads

variable {signatures : List Signature} {labels : List Label} {site : Site} {env : Env}
  {before after : Pending} {builder : Builder}

/-- Setting an argument adds a value of the type under which it is passed. -/
theorem setArg_yields (hserves : env.Serves signatures labels site)
    (hholds : builder.Holds signatures before) (position : Int) {source : Operand} {type : Ty}
    (hpasses : site.Passes type source) :
    Yields (instr env builder (.setArg position source type))
      (·.Holds signatures { before with args := before.args ++ [type] }) := by
  obtain ⟨hstorable, hhas, hlocated⟩ := hpasses
  have happend : ∀ {answer : Value × Builder},
      Gives signatures before (IrType.ofParam type) answer →
        Builder.Holds signatures { before with args := before.args ++ [type] }
          { answer.2 with args := answer.2.args ++ [answer.1] } := by
    intro answer hgives
    refine ⟨hgives.2.steps, ?_, hgives.2.last⟩
    simp only [List.map_append, List.map_cons, List.map_nil, hgives.1, hgives.2.args,
      IrType.ofParams_eq]
  cases hrecord : type.isRecord with
  | true =>
      simp only [instr, hrecord, if_true]
      refine (hserves.addressOf_yields hholds ⟨hhas, hlocated hrecord⟩).bind
        fun answer haddress => ?_
      refine .pure (happend ?_)
      rw [(IrType.ofTy_of_isRecord hrecord).2]
      exact Builder.push_gives haddress.2 (.intToPtr haddress.1)
  | false =>
      obtain ⟨hparam, hsize, _⟩ := IrType.ofTy_of_storable hstorable hrecord
      simp only [instr, hrecord, Bool.false_eq_true, if_false]
      refine (hserves.load_yields hholds (hsize ▸ hhas)).bind fun answer hword => ?_
      refine .pure (happend ?_)
      rw [hparam]
      exact fromWord_gives hword.2 hword.1 hstorable hrecord

/-- A call that has all its arguments leaves a value of the type of its result. -/
theorem call_yields (hserves : env.Serves signatures labels site)
    (hholds : builder.Holds signatures before) {callee : String} {result : Ty}
    (hsignature : site.signature? callee = some (before.args, result)) :
    Yields (instr env builder (.call callee)) (·.Holds signatures ⟨[], some result⟩) := by
  obtain ⟨function, hlookup, hresult, hmem⟩ := hserves.functions _ _ _ hsignature
  rw [← hholds.args] at hmem
  have hcall := Builder.push_gives hholds (.call hmem)
  simp only [instr, hlookup]
  refine .pure ⟨hcall.2.steps, rfl, ?_⟩
  rintro type ⟨⟩
  exact ⟨_, rfl, hcall.1.trans hresult⟩

/-- A parameter can be fetched into a variable of its width. -/
theorem getArg_yields (hserves : env.Serves signatures labels site)
    (hholds : builder.Holds signatures before) {index : Nat} (count : Int) {var : Variable}
    {type : Ty} (hparam : site.params[index]? = some type) (hstorable : type.isStorable = true)
    (hvar : var ∈ site.vars) (hwidth : var.width = type.size) :
    Yields (instr env builder
      (.getArg ((index + 1 : Nat) : Int) count (.var var) type.isRecord))
      (·.Holds signatures before) := by
  have hposition : ¬ ((index + 1 : Nat) : Int) < 1 := by omega
  have hindex : (((index + 1 : Nat) : Int) - 1).toNat = index := by omega
  have htypes : (env.function.params.map (·.type))[index]? = some (IrType.ofParam type) := by
    rw [hserves.params, IrType.ofParams_eq, List.getElem?_map, hparam, Option.map_some]
  rw [List.getElem?_map] at htypes
  obtain ⟨param, hparam, htype⟩ := Option.map_eq_some_iff.1 htypes
  have hstores : site.Stores type.size (.var var) := ⟨⟨.inr hvar, hwidth⟩, rfl⟩
  simp only [instr, hposition, if_false, hindex, hparam]
  cases hrecord : type.isRecord with
  | true =>
      obtain ⟨_, _, heq⟩ | ⟨pointer, hpointer, hcontent, _⟩ := hserves.exists_pointerTo hstores
      · cases heq
      rw [(IrType.ofTy_of_isRecord hrecord).2] at htype
      have hcast := Builder.push_gives hholds
        (@Instr.Typed.bitcast signatures param _ (.ofWidth var.width) htype)
      have hvalue := Builder.push_gives hcast.2 (.load hcast.1)
      rw [if_pos rfl, hpointer]
      refine Builder.store_yields hvalue.2 ?_
      rw [hcontent, hvalue.1, ← hwidth]
      rfl
  | false =>
      obtain ⟨hpassed, hsize, _⟩ := IrType.ofTy_of_storable hstorable hrecord
      have hword := toWord_gives hholds (htype.trans hpassed) hstorable hrecord
      exact hserves.store_yields hword.2 hword.1 (hsize ▸ hstores)

/-- A result can be kept until the procedure is left. -/
theorem setRet_yields (hserves : env.Serves signatures labels site)
    (hholds : builder.Holds signatures before) {source : Operand}
    (hpasses : site.Passes site.result source) :
    Yields (instr env builder (.setRet source site.result.isRecord))
      (·.Holds signatures before) := by
  obtain ⟨hstorable, hhas, hlocated⟩ := hpasses
  obtain ⟨hvoid, _⟩ | ⟨_, place, hplace, hroom⟩ := hserves.place
  · rw [hvoid] at hstorable
    cases hstorable
  have hkeep : ∀ {answer : Value × Builder},
      Gives signatures before env.function.result answer →
        Yields (answer.2.store answer.1 place) (·.Holds signatures before) := by
    intro answer hgives
    exact Builder.store_yields hgives.2 (hroom.trans (by rw [hgives.1]))
  simp only [instr, hplace]
  cases hrecord : site.result.isRecord with
  | true =>
      have hresult := hserves.result.trans (IrType.ofTy_of_isRecord hrecord).1
      have hpointer := hserves.recordPointer_yields hholds ⟨hhas, hlocated hrecord⟩
      rw [← hresult] at hpointer
      refine hpointer.bind fun answer hgives => ?_
      exact hkeep (Builder.push_gives hgives.2 (.load hgives.1))
  | false =>
      obtain ⟨_, hsize, htype⟩ := IrType.ofTy_of_storable hstorable hrecord
      refine (hserves.load_yields hholds (hsize ▸ hhas)).bind fun answer hgives => ?_
      rcases htype with ⟨_, htext⟩ | ⟨_, hword⟩
      · have hresult := hserves.result.trans htext
        rw [hresult] at hkeep ⊢
        exact hkeep (Builder.push_gives hgives.2 (.intToPtr hgives.1))
      · have hresult := hserves.result.trans hword
        rw [hresult] at hkeep ⊢
        exact hkeep hgives

/-- The result of the last call can be fetched into a temporary of its width. -/
theorem getRet_yields (hserves : env.Serves signatures labels site)
    (hholds : builder.Holds signatures before) {temp : Temp} {type : Ty}
    (hlast : before.last = some type) (hstorable : type.isStorable = true)
    (htemp : temp ∈ site.temps) (hwidth : temp.width = type.size) :
    Yields (instr env builder (.getRet (.temp temp) type.isRecord))
      (·.Holds signatures before) := by
  obtain ⟨value, hvalue, htype⟩ := hholds.last type hlast
  have hstores : site.Stores type.size (.temp temp) := ⟨⟨htemp, hwidth⟩, rfl⟩
  simp only [instr, hvalue]
  cases hrecord : type.isRecord with
  | true =>
      obtain ⟨_, _, heq⟩ | ⟨pointer, hpointer, hcontent, _⟩ := hserves.exists_pointerTo hstores
      · cases heq
      rw [if_pos rfl, hpointer]
      refine Builder.store_yields hholds ?_
      rw [hcontent, htype, (IrType.ofTy_of_isRecord hrecord).1]
  | false =>
      have hsize := (IrType.ofTy_of_storable hstorable hrecord).2.1
      have hword := toWord_gives hholds htype hstorable hrecord
      exact hserves.store_yields hword.2 hword.1 (hsize ▸ hstores)

/-- The routine that writes a value of a type takes it as a value of that type is passed. -/
theorem mem_runtime_output {type : Ty} (htype : type ∈ [.int, .bool, .string]) :
    (outputRoutine type, .void, [IrType.ofTy type]) ∈ runtime.map (·.typing) := by
  simp only [List.mem_cons, List.not_mem_nil, or_false] at htype
  rcases htype with rfl | rfl | rfl <;>
    simp [outputRoutine, runtime, Function.typing, IrType.ofTy, Value.type]

theorem mem_runtime_input {type : Ty} (htype : type ∈ [.int, .bool]) :
    (inputRoutine type, IrType.i64, []) ∈ runtime.map (·.typing) := by
  simp only [List.mem_cons, List.not_mem_nil, or_false] at htype
  rcases htype with rfl | rfl <;> simp [inputRoutine, runtime, Function.typing]

theorem output_yields (hserves : env.Serves signatures labels site)
    (hholds : builder.Holds signatures before) {source : Operand} {type : Ty}
    (htype : type ∈ [.int, .bool, .string]) (hhas : site.Has slotWidth source) :
    Yields (instr env builder (.output source type)) (·.Holds signatures before) := by
  have hplain : type.isStorable = true ∧ type.isRecord = false := by
    simp only [List.mem_cons, List.not_mem_nil, or_false] at htype
    rcases htype with rfl | rfl | rfl <;> exact ⟨rfl, rfl⟩
  refine (hserves.load_yields hholds hhas).bind fun answer hword => ?_
  have hvalue := fromWord_gives hword.2 hword.1 hplain.1 hplain.2
  have hroutine := hserves.runtime (mem_runtime_output htype)
  rw [← hvalue.1] at hroutine
  exact .pure (Builder.push_gives hvalue.2 (@Instr.Typed.call _ _ _ [_] hroutine)).2

/-- A quad that fits becomes well-typed instructions. -/
theorem instr_yields (hserves : env.Serves signatures labels site)
    (hholds : builder.Holds signatures before) {quad : Code.Instr}
    (hfits : site.Fits labels before quad after) :
    Yields (instr env builder quad) (·.Holds signatures after) := by
  cases hfits with
  | @binary op _ _ _ htarget hleft hright =>
      refine (hserves.load_yields hholds hleft).bind fun first hfirst => ?_
      refine (hserves.load_yields hfirst.2 hright).bind fun second hsecond => ?_
      have hvalue := binary_gives hsecond.2 op hfirst.1 hsecond.1
      exact hserves.store_yields hvalue.2 hvalue.1 htarget
  | @unary op _ _ htarget hsource =>
      refine (hserves.load_yields hholds hsource).bind fun operand hoperand => ?_
      cases op with
      | neg =>
          have hvalue := Builder.push_gives hoperand.2
            (@Instr.Typed.arith signatures .sub (.word 0) _ rfl hoperand.1)
          exact hserves.store_yields hvalue.2 hvalue.1 htarget
      | not =>
          have hvalue := Builder.push_gives hoperand.2
            (@Instr.Typed.arith signatures .xor _ (.word 1) hoperand.1 rfl)
          exact hserves.store_yields hvalue.2 (hvalue.1.trans hoperand.1) htarget
  | assign htarget hsource =>
      refine (hserves.load_yields hholds hsource).bind fun value hvalue => ?_
      exact hserves.store_yields hvalue.2 hvalue.1 htarget
  | index htarget hbase hoffset =>
      obtain ⟨bytes, hbytes⟩ := Option.isSome_iff_exists.1 hoffset
      obtain ⟨pointer, hpointer, hcontent⟩ := hserves.pointerToAddress_eq htarget
      simp only [instr, hbytes]
      refine (hserves.addressOf_yields hholds hbase).bind fun address haddress => ?_
      have hsum := Builder.push_gives haddress.2
        (@Instr.Typed.arith signatures .add _ (.word bytes) haddress.1 rfl)
      have hword := hsum.1.trans haddress.1
      rw [hpointer]
      exact Builder.store_yields hsum.2 (hcontent.trans (by rw [hword]))
  | setArg hpasses => exact setArg_yields hserves hholds _ hpasses
  | call hsignature => exact call_yields hserves hholds hsignature
  | getArg hparam hstorable hvar hwidth =>
      exact getArg_yields hserves hholds _ hparam hstorable hvar hwidth
  | setRet hpasses => exact setRet_yields hserves hholds hpasses
  | getRet hlast hstorable htemp hwidth =>
      exact getRet_yields hserves hholds hlast hstorable htemp hwidth
  | output htype hsource => exact output_yields hserves hholds htype hsource
  | input htype htarget =>
      have hvalue := Builder.push_gives hholds
        (@Instr.Typed.call _ _ _ [] (hserves.runtime (mem_runtime_input htype)))
      exact hserves.store_yields hvalue.2 hvalue.1 htarget
  | enter => exact .ok hholds
  | nop => exact .ok hholds
  | goto => exact .ok hholds
  | ifZero => exact .ok hholds
  | leave => exact .ok hholds

/-- What is expected of the end of a block. -/
def Ends (signatures : List Signature) (result : IrType) (pending : Pending)
    (answer : Terminator × Builder) : Prop :=
  answer.1.Typed result ∧ answer.2.Holds signatures pending

/-- A block can be ended at any quad that has a block after it, and at the one at which the procedure
is left. -/
theorem finish_yields (hserves : env.Serves signatures labels site)
    (hholds : builder.Holds signatures before) {quad : Code.Instr}
    (hfits : site.Fits labels before quad after) {next? : Option String}
    (hnext : (∃ procedure, quad = .leave procedure) ∨ next?.isSome = true) :
    Yields (finish env next? builder quad) (Ends signatures env.function.result after) := by
  by_cases hleave : ∃ procedure, quad = .leave procedure
  · obtain ⟨procedure, rfl⟩ := hleave
    cases hfits
    simp only [finish]
    obtain ⟨hvoid, hnone⟩ | ⟨_, place, hplace, hroom⟩ := hserves.place
    · rw [hnone]
      exact .ok ⟨.retVoid (by rw [hserves.result, hvoid]; rfl), hholds⟩
    · rw [hplace]
      have hvalue := Builder.push_gives hholds (.load hroom)
      exact .ok ⟨.ret hvalue.1, hvalue.2⟩
  · -- All other quads have a block after them, which the block goes on with unless it jumps away.
    obtain ⟨next, rfl⟩ := Option.isSome_iff_exists.1 (hnext.resolve_left hleave)
    have hinstr := instr_yields hserves hholds hfits
    cases hfits with
    | leave => exact absurd ⟨_, rfl⟩ hleave
    | goto htarget =>
        obtain ⟨block, hblock⟩ := hserves.blocks _ htarget
        simp only [finish, hblock]
        exact .pure ⟨.jump, hholds⟩
    | ifZero hcondition htarget =>
        obtain ⟨block, hblock⟩ := hserves.blocks _ htarget
        simp only [finish, hblock]
        refine (hserves.load_yields hholds hcondition).bind fun value hvalue => ?_
        have hbit := Builder.push_gives hvalue.2
          (@Instr.Typed.compare signatures .eq _ (.word 0) hvalue.1 rfl)
        exact .pure ⟨.branch hbit.1, hbit.2⟩
    | _ => exact hinstr.bind fun _ hholds => .pure ⟨.jump, hholds⟩

/-- Quads that fit become the code of a block. -/
theorem quads_yields (hserves : env.Serves signatures labels site)
    {code : List Quad} {last : Quad} (hlast : code.getLast? = some last)
    {next? : Option String}
    (hnext : (∃ procedure, last.instr = .leave procedure) ∨ next?.isSome = true)
    (hholds : builder.Holds signatures before) (hall : site.AllFit labels before code after) :
    Yields (quads env next? builder code) (Ends signatures env.function.result after) := by
  induction code generalizing builder before with
  | nil => cases hlast
  | cons quad rest ih =>
      cases hall with
      | cons hfits hrest =>
          cases rest with
          | nil =>
              cases hlast
              cases hrest
              exact finish_yields hserves hholds hfits hnext
          | cons next rest =>
              rw [List.getLast?_cons_cons] at hlast
              exact (instr_yields hserves hholds hfits).bind fun _ hholds => ih hlast hholds hrest

end Quads

end Shanty.Target.Llvm
