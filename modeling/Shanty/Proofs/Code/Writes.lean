/-
# What code writes to

An instruction writes to the storage of one operand, and the code of a part of a program writes to
few of them. So code is given rights: the variables that it may assign to, the number from which on
temporaries are its own, whether it may call procedures, and whether it may leave the straight line.
What is outside its rights it leaves as it is.

A field is written to through a temporary that holds its address, so it has to be known into which
variable the address leads. This can be read off the code, because a temporary gets its address from
a place that is known and is used before the next label.
-/

import Shanty.Proofs.Code.Machine

namespace Shanty

/-- Writing to one block leaves all others as they are. -/
theorem Memory.write_of_block_ne {memory : Memory} {start place : Address} {value : Value}
    (hne : place.block ≠ start.block) : memory.write start value place = memory place :=
  Memory.write_of_ne _ _ fun heq => hne (congrArg (·.block) heq)

theorem Memory.fill_of_block_ne {memory : Memory} {start place : Address} {size : Int64}
    {contents : Contents} (hne : place.block ≠ start.block) :
    memory.fill start size contents place = memory place :=
  if_neg fun hcovers => hne hcovers.1

namespace Code

/-- The operand that an instruction writes to. -/
def Instr.target? : Instr → Option Operand
  | .binary _ target _ _ | .unary _ target _ | .assign target _ | .getArg _ _ target _
  | .getRet target _ | .input target _ => some target
  | _ => none

/-- The storage that an instruction writes to. -/
def Instr.Touches (program : Program) (memory : Memory) (activation : Nat) (instr : Instr)
    (block : Block) : Prop :=
  match instr with
  | .index target _ _ => block = .inside activation target.slot
  | .enter _ => block.belongsTo activation = true
  | instr => ∃ target ∈ instr.target?, block = (target.place program memory activation).block

section Effects

variable {program : Program} {store store' : Store} {self self' : Activation} {instr : Instr}

theorem Store.assign_outside (target : Operand) (value : Value) {place : Address}
    (hne : place.block ≠ (target.place program store.memory self.number).block) :
    (store.assign program self.number target value).memory place = store.memory place :=
  Memory.write_of_block_ne hne

theorem Store.accept_outside (target : Operand) (isRecord : Bool) (handed : Value)
    {place : Address} (hne : place.block ≠ (target.place program store.memory self.number).block) :
    (store.accept program self.number target isRecord handed).memory place =
      store.memory place := by
  cases isRecord with
  | true => exact Memory.fill_of_block_ne hne
  | false => exact Memory.write_of_block_ne hne

theorem Store.activations_accept (store : Store) (program : Program) (activation : Nat)
    (target : Operand) (isRecord : Bool) (handed : Value) :
    (store.accept program activation target isRecord handed).activations = store.activations := by
  cases isRecord <;> rfl

/-- What an instruction may change besides output, input and what is handed over. -/
structure Instr.Changes (program : Program) (instr : Instr) (store : Store)
    (activation : Activation) (store' : Store) (activation' : Activation) : Prop where
  activations : store'.activations = store.activations
  number : activation'.number = activation.number
  same : (∀ source isRecord, instr ≠ .setRet source isRecord) → activation' = activation
  memory : ∀ place : Address,
    ¬ instr.Touches program store.memory activation.number place.block →
      store'.memory place = store.memory place

/-- An instruction changes the storage that it writes to, begins no activation, and leaves its own
activation as it is unless it sets the result. -/
theorem Instr.effect_changes (heffect : instr.effect program store self = some (store', self')) :
    instr.Changes program store self store' self' := by
  cases instr with
  | binary op target left right =>
      simp only [Instr.effect, Option.bind_eq_bind, Option.bind_eq_some_iff, Option.pure_def,
        Option.some_inj, Prod.mk.injEq] at heffect
      obtain ⟨_, _, _, _, _, _, rfl, rfl⟩ := heffect
      exact ⟨rfl, rfl, fun _ => rfl, fun place hnot =>
        Store.assign_outside _ _ fun heq => hnot ⟨_, rfl, heq⟩⟩
  | unary op target source =>
      simp only [Instr.effect, Option.bind_eq_bind, Option.bind_eq_some_iff, Option.pure_def,
        Option.some_inj, Prod.mk.injEq] at heffect
      obtain ⟨_, _, rfl, rfl⟩ := heffect
      exact ⟨rfl, rfl, fun _ => rfl, fun place hnot =>
        Store.assign_outside _ _ fun heq => hnot ⟨_, rfl, heq⟩⟩
  | assign target source =>
      cases heffect
      exact ⟨rfl, rfl, fun _ => rfl, fun place hnot =>
        Store.assign_outside _ _ fun heq => hnot ⟨_, rfl, heq⟩⟩
  | index target base offset =>
      cases heffect
      exact ⟨rfl, rfl, fun _ => rfl, fun place hnot => Memory.write_of_block_ne hnot⟩
  | enter name =>
      cases heffect
      exact ⟨rfl, rfl, fun _ => rfl, fun place hnot => if_neg hnot⟩
  | getArg position count target isRecord =>
      simp only [Instr.effect, Option.bind_eq_bind, Option.bind_eq_some_iff, Option.pure_def,
        Option.some_inj, Prod.mk.injEq] at heffect
      obtain ⟨_, _, rfl, rfl⟩ := heffect
      exact ⟨Store.activations_accept _ _ _ _ _ _, rfl, fun _ => rfl, fun place hnot =>
        Store.accept_outside _ _ _ fun heq => hnot ⟨_, rfl, heq⟩⟩
  | getRet target isRecord =>
      simp only [Instr.effect, Option.bind_eq_bind, Option.bind_eq_some_iff, Option.pure_def,
        Option.some_inj, Prod.mk.injEq] at heffect
      obtain ⟨_, _, rfl, rfl⟩ := heffect
      exact ⟨Store.activations_accept _ _ _ _ _ _, rfl, fun _ => rfl, fun place hnot =>
        Store.accept_outside _ _ _ fun heq => hnot ⟨_, rfl, heq⟩⟩
  | input target type =>
      simp only [Instr.effect] at heffect
      split at heffect
      · cases heffect
      · cases heffect
        exact ⟨rfl, rfl, fun _ => rfl, fun place hnot =>
          Memory.write_of_block_ne fun heq => hnot ⟨_, rfl, heq⟩⟩
  | setRet source isRecord =>
      cases heffect
      exact ⟨rfl, rfl, fun hnot => absurd rfl (hnot source isRecord), fun _ _ => rfl⟩
  | _ =>
      cases heffect
      exact ⟨rfl, rfl, fun _ => rfl, fun _ _ => rfl⟩

end Effects

/-! ## Where addresses lead -/

/-- The variables into which the addresses in temporaries lead, as far as they are known. -/
abbrev Pointers := Temp → Option Variable

namespace Pointers

/-- Nothing is known about any address. -/
def unknown : Pointers := fun _ => none

/-- What is known after a temporary has been written to. -/
def set (pointers : Pointers) (temp : Temp) (root : Option Variable) : Pointers :=
  fun other => if other.slot = temp.slot then root else pointers other

/-- The addresses in the temporaries of an activation lead where they are known to lead. -/
def Hold (program : Program) (memory : Memory) (activation : Nat) (pointers : Pointers) : Prop :=
  ∀ temp var, pointers temp = some var →
    (memory (temp.home activation)).target.block = program.blockOf activation var

theorem hold_unknown (program : Program) (memory : Memory) (activation : Nat) :
    unknown.Hold program memory activation := by
  intro temp var hvar
  cases hvar

end Pointers

/-- The variable that an operand is or is a part of, as far as that is known. -/
def Operand.root? (pointers : Pointers) : Operand → Option Variable
  | .var v => some v
  | .address t => pointers t
  | _ => none

/-- An operand lies in the storage of its variable. -/
theorem Operand.block_place_of_root? {program : Program} {memory : Memory} {activation : Nat}
    {pointers : Pointers} (hhold : pointers.Hold program memory activation) {operand : Operand}
    {var : Variable} (hroot : operand.root? pointers = some var) :
    (operand.place program memory activation).block = program.blockOf activation var := by
  cases operand with
  | var other => cases hroot; rfl
  | address temp => exact hhold temp var hroot
  | _ => cases hroot

/-- What is known about addresses after an operand has received a value. -/
def Operand.forget (pointers : Pointers) : Operand → Pointers
  | .temp t => pointers.set t none
  | _ => pointers

/-- What is known about addresses after an instruction. -/
def Instr.track (pointers : Pointers) : Instr → Pointers
  | .index target base _ => pointers.set target (base.root? pointers)
  | .enter _ => .unknown
  | instr => instr.target?.elim pointers (·.forget pointers)

/-- What is known about addresses at a quad. Jumps come to a label from elsewhere. -/
def Quad.arrive (pointers : Pointers) (quad : Quad) : Pointers :=
  if quad.labels = [] then pointers else .unknown

theorem Quad.arrive_of_labels {quad : Quad} (hlabels : quad.labels = []) (pointers : Pointers) :
    quad.arrive pointers = pointers :=
  if_pos hlabels

/-- What is known about addresses after some quads. -/
def Pointers.after (pointers : Pointers) : List Quad → Pointers
  | [] => pointers
  | quad :: rest => after (quad.instr.track (quad.arrive pointers)) rest

theorem Pointers.after_append (pointers : Pointers) (front back : List Quad) :
    pointers.after (front ++ back) = (pointers.after front).after back := by
  induction front generalizing pointers with
  | nil => rfl
  | cons quad front ih => exact ih _

/-! ## Rights -/

/-- What code may do: the variables that it may assign to, the number from which on it may write to
temporaries, whether it may call procedures, and whether it may jump, leave or set a result. -/
structure Rights where
  vars : Nat → Prop
  temps : Nat
  calls : Prop
  control : Prop

namespace Rights

/-- The rights of a procedure. -/
def all : Rights := ⟨fun _ => True, 0, True, True⟩

/-- The storage that an activation can change with some rights, if calls can change all that does
not belong to an activation. -/
def Admit (rights : Rights) (activation : Nat) : Block → Prop
  | .global symbol => rights.vars symbol ∨ rights.calls
  | .inside owner (.var symbol) => owner = activation ∧ rights.vars symbol
  | .inside owner (.temp _ number) => owner = activation ∧ rights.temps ≤ number
  | .nowhere => False

/-- Code with some rights may write to an operand. -/
def Writes (rights : Rights) (pointers : Pointers) : Operand → Prop
  | .temp temp => rights.temps ≤ temp.number
  | operand => ∃ var, operand.root? pointers = some var ∧ rights.vars var.symbol

/-- Code with some rights may have an instruction. -/
def Permit (rights : Rights) (pointers : Pointers) : Instr → Prop
  | .index target _ _ => rights.temps ≤ target.number
  | .call _ => rights.calls
  | .enter _ => rights = .all
  | .goto _ | .ifZero _ _ | .leave _ | .setRet _ _ => rights.control
  | instr => ∀ target ∈ instr.target?, rights.Writes pointers target

/-- Some quads keep to their rights, one after the other. -/
def PermitAll (rights : Rights) : Pointers → List Quad → Prop
  | _, [] => True
  | pointers, quad :: rest =>
    rights.Permit (quad.arrive pointers) quad.instr ∧
      rights.PermitAll (quad.instr.track (quad.arrive pointers)) rest

variable {rights : Rights} {pointers : Pointers} {program : Program} {memory memory' : Memory}
  {activation : Nat}

theorem permitAll_append {front back : List Quad} :
    rights.PermitAll pointers (front ++ back) ↔
      rights.PermitAll pointers front ∧ rights.PermitAll (pointers.after front) back := by
  induction front generalizing pointers with
  | nil => simp [PermitAll, Pointers.after]
  | cons quad front ih => simp only [List.cons_append, PermitAll, Pointers.after, ih, and_assoc]

/-- Whatever is left of some quads keeps to their rights. -/
theorem PermitAll.exists_of_suffix {quads rest : List Quad}
    (hpermit : rights.PermitAll pointers quads) (hsuffix : rest <:+ quads) :
    ∃ pointers', rights.PermitAll pointers' rest := by
  obtain ⟨front, rfl⟩ := hsuffix
  exact ⟨_, (permitAll_append.1 hpermit).2⟩

theorem admit_blockOf {var : Variable} (hvar : rights.vars var.symbol) :
    rights.Admit activation (program.blockOf activation var) := by
  unfold Program.blockOf
  split
  · exact .inl hvar
  · exact ⟨rfl, hvar⟩

theorem Writes.admits {target : Operand} (hwrites : rights.Writes pointers target)
    (hhold : pointers.Hold program memory activation) :
    rights.Admit activation (target.place program memory activation).block := by
  cases target with
  | temp temp => exact ⟨rfl, hwrites⟩
  | _ =>
      obtain ⟨var, hroot, hvar⟩ := hwrites
      rw [Operand.block_place_of_root? hhold hroot]
      exact admit_blockOf hvar

/-- What a permitted instruction writes to is within the rights. -/
theorem Permit.admits {instr : Instr} (hpermit : rights.Permit pointers instr)
    (hhold : pointers.Hold program memory activation) {block : Block}
    (htouches : instr.Touches program memory activation block) : rights.Admit activation block := by
  cases instr with
  | index target base offset =>
      cases htouches
      exact ⟨rfl, hpermit⟩
  | enter name =>
      obtain rfl : rights = .all := hpermit
      match block with
      | .inside owner (.var _) => exact ⟨of_decide_eq_true htouches, trivial⟩
      | .inside owner (.temp _ _) => exact ⟨of_decide_eq_true htouches, Nat.zero_le _⟩
      | .global _ => cases htouches
      | .nowhere => cases htouches
  | goto | ifZero | nop | call | leave | setArg | setRet | output =>
      obtain ⟨_, htarget, _⟩ := htouches
      cases htarget
  | _ =>
      obtain ⟨target, htarget, rfl⟩ := htouches
      exact (hpermit target htarget).admits hhold

/-- An address is known after an operand has been written to only if it lies elsewhere. -/
theorem Writes.of_forget {target : Operand} (hwrites : rights.Writes pointers target)
    (hhold : pointers.Hold program memory activation) {temp : Temp} {var : Variable}
    (hforget : target.forget pointers temp = some var) :
    pointers temp = some var ∧
      (temp.home activation).block ≠ (target.place program memory activation).block := by
  cases target with
  | temp t =>
      simp only [Operand.forget, Pointers.set] at hforget
      split at hforget
      · cases hforget
      next hslot => exact ⟨hforget, fun heq => hslot (Block.inside.inj heq).2⟩
  | _ =>
      refine ⟨hforget, ?_⟩
      intro heq
      obtain ⟨root, hroot, _⟩ := hwrites
      rw [Operand.block_place_of_root? hhold hroot, Program.blockOf] at heq
      split at heq <;> cases heq

/-- What is known about an address after an instruction is what the instruction has just written,
or it was known before and the instruction writes elsewhere. -/
theorem Permit.track_cases {instr : Instr} (hpermit : rights.Permit pointers instr)
    (hhold : pointers.Hold program memory activation) {temp : Temp} {var : Variable}
    (htrack : instr.track pointers temp = some var) :
    (∃ target base offset, instr = .index target base offset ∧ temp.slot = target.slot ∧
      base.root? pointers = some var) ∨
    (pointers temp = some var ∧
      ¬ instr.Touches program memory activation (temp.home activation).block) := by
  cases instr with
  | index target base offset =>
      simp only [Instr.track, Pointers.set] at htrack
      split at htrack
      next hslot => exact .inl ⟨target, base, offset, rfl, hslot, htrack⟩
      next hslot => exact .inr ⟨htrack, fun htouches => hslot (Block.inside.inj htouches).2⟩
  | enter => cases htrack
  | goto | ifZero | nop | call | leave | setArg | setRet | output =>
      exact .inr ⟨htrack, fun ⟨_, htarget, _⟩ => nomatch htarget⟩
  | _ =>
      obtain ⟨hknown, hne⟩ := (hpermit _ rfl).of_forget hhold htrack
      refine .inr ⟨hknown, ?_⟩
      rintro ⟨_, htarget, heq⟩
      cases htarget
      exact hne heq

end Rights

/-- What is known about addresses goes on to hold. -/
theorem Pointers.Hold.track {rights : Rights} {pointers : Pointers} {program : Program}
    {store store' : Store} {self self' : Activation} {instr : Instr}
    (hpermit : rights.Permit pointers instr)
    (hhold : pointers.Hold program store.memory self.number)
    (heffect : instr.effect program store self = some (store', self')) :
    (instr.track pointers).Hold program store'.memory self.number := by
  intro temp var htrack
  rcases hpermit.track_cases hhold htrack with ⟨target, base, offset, rfl, hslot, hroot⟩ |
    ⟨hknown, hnot⟩
  · cases heffect
    have hhome : temp.home self.number = target.home self.number := by
      rw [Temp.home, hslot, Temp.home]
    simp only [hhome, Memory.write_self]
    exact Operand.block_place_of_root? hhold hroot
  · rw [(Instr.effect_changes heffect).memory _ hnot]
    exact hhold temp var hknown

end Code

end Shanty
