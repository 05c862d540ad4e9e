/-
# How storage at run time corresponds

A program and its code share the storage of variables; the code has temporaries besides. A world
and a store agree if they do about variables, input, output and the number of activations.

An operand denotes contents if it has them for its value. A scalar is denoted by its value and a
record by its place. What an operand denotes can change only if one of the places that it depends
on is written to: a variable that its activation sees, or a temporary of its activation. Code
without assignments and calls writes to new temporaries alone, so it leaves as it is what was
computed before.
-/

import Shanty.Proofs.Code.Lowering
import Shanty.Proofs.Evaluation

namespace Shanty

/-- Whether an operand of an activation can stand for a block, given that its temporaries have
numbers below a limit. -/
def Block.Owned (activation limit : Nat) : Block → Prop
  | .global _ => True
  | .inside owner (.var _) => owner = activation
  | .inside owner (.temp _ number) => owner = activation ∧ number < limit
  | .nowhere => False

theorem Block.Owned.mono {activation limit limit' : Nat} (hle : limit ≤ limit') {block : Block}
    (howned : block.Owned activation limit) : block.Owned activation limit' := by
  match block with
  | .global _ => trivial
  | .inside _ (.var _) => exact howned
  | .inside _ (.temp _ _) => exact ⟨howned.1, Nat.lt_of_lt_of_le howned.2 hle⟩
  | .nowhere => exact howned

theorem Block.Owned.eq_of_belongsTo {activation limit owner : Nat} {block : Block}
    (howned : block.Owned activation limit) (hbelongs : block.belongsTo owner = true) :
    owner = activation := by
  match block with
  | .global _ => cases hbelongs
  | .inside _ (.var _) => exact (of_decide_eq_true hbelongs).symm.trans howned
  | .inside _ (.temp _ _) => exact (of_decide_eq_true hbelongs).symm.trans howned.1
  | .nowhere => cases hbelongs

@[simp]
theorem Address.shift_zero (place : Address) : place.shift 0 = place := by
  simp [Address.shift]

/-- All that an operand can stand for is kept. -/
def Memory.Keeps (activation limit : Nat) (memory memory' : Memory) : Prop :=
  ∀ place : Address, place.block.Owned activation limit → memory' place = memory place

namespace Memory.Keeps

variable {activation limit limit' : Nat} {memory memory' memory'' : Memory}

theorem refl (memory : Memory) : Keeps activation limit memory memory := fun _ _ => rfl

theorem trans (hfirst : Keeps activation limit memory memory')
    (hsecond : Keeps activation limit memory' memory'') :
    Keeps activation limit memory memory'' :=
  fun place howned => (hsecond place howned).trans (hfirst place howned)

theorem mono (hle : limit ≤ limit') (hkeeps : Keeps activation limit' memory memory') :
    Keeps activation limit memory memory' :=
  fun place howned => hkeeps place (howned.mono hle)

end Memory.Keeps

namespace Code

open Shanty.Evaluation (World)

/-- The store with a value put into one slot. -/
def Store.write (store : Store) (place : Address) (value : Value) : Store :=
  { store with memory := store.memory.write place value }

/-- A world and a store agree about all that a program knows of. -/
structure Agrees (world : World) (store : Store) : Prop where
  memory : ∀ place : Address, place.block.isVariable = true →
    store.memory place = world.memory place
  inputs : store.inputs = world.inputs
  outputs : store.outputs = world.outputs
  activations : store.activations = world.activations

/-- The storage of a temporary can be written to without anybody noticing who depends on the
temporaries before it. -/
theorem keeps_write_temp {activation limit : Nat} (memory : Memory) {temp : Temp}
    (hle : limit ≤ temp.number) (value : Value) :
    Memory.Keeps activation limit memory (memory.write (temp.home activation) value) := by
  intro place howned
  apply Memory.write_of_ne
  intro heq
  subst heq
  exact absurd howned.2 (Nat.not_lt.2 hle)

/-- A program does not notice what is written to temporaries. -/
theorem Agrees.write_temp {world : World} {store : Store} (hagrees : Agrees world store)
    (temp : Temp) (activation : Nat) (value : Value) :
    Agrees world (store.write (temp.home activation) value) where
  memory := by
    intro place hvariable
    rw [← hagrees.memory place hvariable]
    apply Memory.write_of_ne
    intro heq
    subst heq
    cases hvariable
  inputs := hagrees.inputs
  outputs := hagrees.outputs
  activations := hagrees.activations

/-- Both write the same value to a variable. -/
theorem Agrees.write {world : World} {store : Store} (hagrees : Agrees world store)
    (place : Address) (value : Value) :
    Agrees { world with memory := world.memory.write place value }
      (store.write place value) where
  memory := by
    intro other hvariable
    dsimp only [Store.write]
    by_cases hsame : other = place
    · rw [hsame, Memory.write_self, Memory.write_self]
    · rw [Memory.write_of_ne _ _ hsame, Memory.write_of_ne _ _ hsame]
      exact hagrees.memory other hvariable
  inputs := hagrees.inputs
  outputs := hagrees.outputs
  activations := hagrees.activations

namespace Operand

variable {code : Program} {memory memory' : Memory} {activation limit : Nat} {operand : Operand}

/-- The place of an operand stays where it is. -/
theorem place_of_keeps (hkeeps : Memory.Keeps activation limit memory memory')
    (hbelow : operand.Below limit) :
    operand.place code memory' activation = operand.place code memory activation := by
  cases operand with
  | address t =>
      have hhome : memory' (t.home activation) = memory (t.home activation) :=
        hkeeps _ ⟨rfl, hbelow⟩
      simp only [place, hhome]
  | _ => rfl

/-- Writing to a variable moves no operand. -/
theorem place_write {place : Address} (hvariable : place.block.isVariable = true) (value : Value) :
    operand.place code (memory.write place value) activation =
      operand.place code memory activation := by
  cases operand with
  | address t =>
      have hne : t.home activation ≠ place := by
        intro heq
        rw [← heq] at hvariable
        cases hvariable
      simp only [Operand.place, Memory.write_of_ne _ _ hne]
  | _ => rfl

/-- The value of an operand that has a place is what the place holds. -/
theorem value_of_isLocated (hbelow : operand.Below limit) (hlocated : operand.isLocated = true) :
    operand.value code memory activation = memory (operand.place code memory activation) := by
  cases operand with
  | constant => cases hlocated
  | string => cases hlocated
  | nothing => exact hbelow.elim
  | _ => rfl

end Operand

/-- An operand has some contents of a type for its value. -/
structure Denotes (code : Program) (memory : Memory) (activation limit : Nat) (type : Ty)
    (operand : Operand) (contents : Contents) : Prop where
  below : operand.Below limit
  owned : operand.isLocated = true →
    (operand.place code memory activation).block.Owned activation limit
  scalar : type.isRecord = false → operand.value code memory activation = contents 0
  record : type.isRecord = true → operand.isLocated = true ∧
    ∀ distance, 0 ≤ distance → distance < type.size →
      memory ((operand.place code memory activation).shift distance) = contents distance

/-- An operand stands for a place of a variable. -/
structure Locates (code : Program) (memory : Memory) (activation limit : Nat)
    (operand : Operand) (place : Address) : Prop where
  below : operand.Below limit
  located : operand.isLocated = true
  place_eq : operand.place code memory activation = place
  isVariable : place.block.isVariable = true
  owned : place.block.Owned activation limit

section Operands

variable {code : Program} {memory memory' : Memory} {activation limit limit' : Nat} {type : Ty}
  {operand : Operand} {contents : Contents} {place : Address}

/-- What an operand denotes is kept with the places that it depends on. -/
theorem Denotes.keep (hdenotes : Denotes code memory activation limit type operand contents)
    (hkeeps : Memory.Keeps activation limit memory memory') :
    Denotes code memory' activation limit type operand contents := by
  have hplace : operand.place code memory' activation = operand.place code memory activation :=
    operand.place_of_keeps hkeeps hdenotes.below
  refine ⟨hdenotes.below, ?_, ?_, ?_⟩
  · rw [hplace]
    exact hdenotes.owned
  · intro hscalar
    rw [← hdenotes.scalar hscalar]
    cases hlocated : operand.isLocated with
    | true =>
        rw [operand.value_of_isLocated hdenotes.below hlocated,
          operand.value_of_isLocated hdenotes.below hlocated, hplace]
        exact hkeeps _ (hdenotes.owned hlocated)
    | false => cases operand <;> first | rfl | cases hlocated
  · intro hrecord
    obtain ⟨hlocated, hcontents⟩ := hdenotes.record hrecord
    refine ⟨hlocated, ?_⟩
    intro distance hle hlt
    rw [hplace, ← hcontents distance hle hlt]
    exact hkeeps _ (hdenotes.owned hlocated)

theorem Denotes.mono (hle : limit ≤ limit')
    (hdenotes : Denotes code memory activation limit type operand contents) :
    Denotes code memory activation limit' type operand contents :=
  ⟨hdenotes.below.mono hle, fun hlocated => (hdenotes.owned hlocated).mono hle, hdenotes.scalar,
    hdenotes.record⟩

/-- Operands stand for the same places after a variable has been written to. -/
theorem Locates.write (hlocates : Locates code memory activation limit operand place)
    {place' : Address} (hvariable : place'.block.isVariable = true) (value : Value) :
    Locates code (memory.write place' value) activation limit operand place :=
  ⟨hlocates.below, hlocates.located, (operand.place_write hvariable value).trans hlocates.place_eq,
    hlocates.isVariable, hlocates.owned⟩

theorem Locates.value (hlocates : Locates code memory activation limit operand place) :
    operand.value code memory activation = memory place := by
  rw [operand.value_of_isLocated hlocates.below hlocates.located, hlocates.place_eq]

/-- An operand that stands for a place denotes what the place holds. -/
theorem Locates.denotes {world : World} {store : Store} (hagrees : Agrees world store)
    (hlocates : Locates code store.memory activation limit operand place) (type : Ty) :
    Denotes code store.memory activation limit type operand (world.memory.contents place) := by
  refine ⟨hlocates.below, ?_, ?_, ?_⟩
  · intro _
    rw [hlocates.place_eq]
    exact hlocates.owned
  · intro _
    rw [hlocates.value, hagrees.memory place hlocates.isVariable, Memory.contents,
      Address.shift_zero]
  · intro _
    refine ⟨hlocates.located, ?_⟩
    intro distance _ _
    rw [hlocates.place_eq]
    exact hagrees.memory _ hlocates.isVariable

end Operands

/-- What is handed over stands for some contents of a type. If it is the address of a record,
the record is storage of an activation that had begun when a given number had. -/
def Conveys (memory : Memory) (begun : Nat) (type : Ty) (handed : Value) (contents : Contents) :
    Prop :=
  if type.isRecord then
    ∃ start, handed = .address start ∧
      (∀ owner, start.block.belongsTo owner = true → owner < begun) ∧
      ∀ distance, 0 ≤ distance → distance < type.size →
        memory (start.shift distance) = contents distance
  else handed = contents 0

/-- The arguments of some types that have been passed from a position on. -/
def Passed (memory : Memory) (begun : Nat) (passed : Arguments) :
    Nat → List Ty → List Contents → Prop
  | position, type :: types, contents :: rest =>
    (∃ handed, passed position = some handed ∧ Conveys memory begun type handed contents) ∧
      Passed memory begun passed (position + 1) types rest
  | _, [], [] => True
  | _, _, _ => False

/-- The result of a given type that has been set, or that none has been. -/
def Returned (memory : Memory) (begun : Nat) (type : Ty) (returned : Option Value) :
    Option Contents → Prop
  | none => returned = none
  | some contents => ∃ handed, returned = some handed ∧ Conveys memory begun type handed contents

section Handing

variable {code : Program} {memory memory' : Memory} {activation limit begun : Nat} {type : Ty}
  {operand : Operand} {contents : Contents} {handed : Value}

/-- What is handed over for an operand stands for what the operand denotes. -/
theorem Denotes.conveys (hdenotes : Denotes code memory activation limit type operand contents)
    (hbegun : activation < begun) :
    Conveys memory begun type (operand.handed code memory activation type.isRecord) contents := by
  unfold Conveys Operand.handed
  cases hrecord : type.isRecord with
  | true =>
      obtain ⟨hlocated, hcontents⟩ := hdenotes.record hrecord
      refine ⟨_, rfl, ?_, hcontents⟩
      intro owner hbelongs
      rw [(hdenotes.owned hlocated).eq_of_belongsTo hbelongs]
      exact hbegun
  | false => exact hdenotes.scalar hrecord

/-- What was handed over is kept with the storage of the activations that had begun. -/
theorem Conveys.keep (hconveys : Conveys memory begun type handed contents)
    (hkeeps : ∀ place : Address, (∀ owner, place.block.belongsTo owner = true → owner < begun) →
      memory' place = memory place) :
    Conveys memory' begun type handed contents := by
  unfold Conveys at hconveys ⊢
  cases hrecord : type.isRecord with
  | true =>
      rw [hrecord] at hconveys
      obtain ⟨start, hhanded, hbelongs, hcontents⟩ := hconveys
      refine ⟨start, hhanded, hbelongs, ?_⟩
      intro distance hle hlt
      rw [← hcontents distance hle hlt]
      exact hkeeps _ hbelongs
  | false =>
      rw [hrecord] at hconveys
      exact hconveys

theorem Passed.keep {passed : Arguments} {position : Nat} {types : List Ty}
    {args : List Contents} (hpassed : Passed memory begun passed position types args)
    (hkeeps : ∀ place : Address, (∀ owner, place.block.belongsTo owner = true → owner < begun) →
      memory' place = memory place) :
    Passed memory' begun passed position types args := by
  induction types generalizing position args with
  | nil =>
      cases args with
      | nil => trivial
      | cons => exact hpassed.elim
  | cons type types ih =>
      cases args with
      | nil => exact hpassed.elim
      | cons contents args =>
          obtain ⟨⟨handed, hhanded, hconveys⟩, hrest⟩ := hpassed
          exact ⟨⟨handed, hhanded, hconveys.keep hkeeps⟩, ih hrest⟩

/-- Only the contents that a place has room for matter. -/
theorem fill_congr (memory : Memory) (start : Address) {size : Int64} {contents contents' : Contents}
    (hsame : ∀ distance, 0 ≤ distance → distance < size → contents distance = contents' distance) :
    memory.fill start size contents = memory.fill start size contents' := by
  funext place
  unfold Memory.fill
  split
  next hcovers => exact hsame _ hcovers.2.1 hcovers.2.2
  next => rfl

/-- Receiving what was handed over puts the contents where they belong. -/
theorem accept_eq {store : Store} (code : Program) (activation : Nat) (target : Operand)
    (hconveys : Conveys store.memory begun type handed contents)
    (hextent : target.extent = type.size) :
    store.accept code activation target type.isRecord handed = { store with
      memory := store.memory.put (target.place code store.memory activation) type contents } := by
  unfold Conveys at hconveys
  unfold Store.accept Memory.put
  cases hrecord : type.isRecord with
  | true =>
      rw [hrecord] at hconveys
      obtain ⟨start, rfl, _, hcontents⟩ := hconveys
      have hfill := fill_congr store.memory (target.place code store.memory activation) hcontents
      simp only [if_true, hextent, Value.target, ← hfill]
      rfl
  | false =>
      rw [hrecord] at hconveys
      obtain rfl : handed = contents 0 := hconveys
      rfl

end Handing

/-- A value of some type changes its own block alone. -/
theorem put_of_block_ne {memory : Memory} {start place : Address} {type : Ty} {contents : Contents}
    (hne : place.block ≠ start.block) : memory.put start type contents place = memory place := by
  unfold Memory.put
  cases type.isRecord with
  | true =>
      simp only [if_true, Memory.fill]
      rw [if_neg]
      intro hcovers
      exact hne hcovers.1
  | false =>
      apply Memory.write_of_ne
      intro heq
      rw [heq] at hne
      exact hne rfl

/-- What is put into a memory does not depend on what it holds elsewhere. -/
theorem put_congr {memory memory' : Memory} {place : Address} (start : Address) (type : Ty)
    (contents : Contents) (hsame : memory place = memory' place) :
    memory.put start type contents place = memory'.put start type contents place := by
  unfold Memory.put
  cases type.isRecord with
  | true => simp only [if_true, Memory.fill, hsame]
  | false => simp only [Bool.false_eq_true, if_false, Memory.write, hsame]

/-- Both put the same contents into a variable. -/
theorem Agrees.put {world : World} {store : Store} (hagrees : Agrees world store)
    (place : Address) (type : Ty) (contents : Contents) :
    Agrees { world with memory := world.memory.put place type contents }
      { store with memory := store.memory.put place type contents } where
  memory := fun other hvariable => put_congr _ _ _ (hagrees.memory other hvariable)
  inputs := hagrees.inputs
  outputs := hagrees.outputs
  activations := hagrees.activations

/-- A program does not notice what is put into temporaries. -/
theorem Agrees.put_temp {world : World} {store : Store} (hagrees : Agrees world store)
    (temp : Temp) (activation : Nat) (type : Ty) (contents : Contents) :
    Agrees world { store with
      memory := store.memory.put (temp.home activation) type contents } where
  memory := by
    intro place hvariable
    rw [← hagrees.memory place hvariable]
    apply put_of_block_ne
    intro heq
    rw [heq] at hvariable
    cases hvariable
  inputs := hagrees.inputs
  outputs := hagrees.outputs
  activations := hagrees.activations

end Code

end Shanty
