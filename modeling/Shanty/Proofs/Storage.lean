/-
# Storage at run time

What programs and their intermediate code have in common when they run: slots that
hold values, blocks of slots, and a memory that maps addresses to values. A variable
of a program owns one block for the whole run if it is global, and one block for
each activation of its function otherwise. Temporaries have blocks of the second
kind.

An address is a block together with a distance in bytes. Distances are words of 64
bits and wrap around as the sizes and offsets of record types do, so the fields of a
record lie where its layout says. Every address can be read and written. An operand
that has no place stands for the block `nowhere`, so that reading is total; no
program gets there.

Activations are numbered in the order in which they begin. All storage of an
activation is zero when it begins.
-/

import Shanty.Code.Operand

namespace Shanty

/-- A piece of storage within which addresses can be computed. -/
inductive Block
  | global (symbol : Nat)
  | inside (activation : Nat) (slot : Code.Slot)
  | nowhere
  deriving DecidableEq

namespace Block

/-- Whether a block is storage of an activation. -/
def belongsTo (block : Block) (activation : Nat) : Bool :=
  match block with
  | .inside owner _ => owner = activation
  | _ => false

/-- Whether a block is a variable of a program, as opposed to a temporary. -/
def isVariable : Block → Bool
  | .global _ | .inside _ (.var _) => true
  | _ => false

end Block

/-- A place in storage. -/
structure Address where
  block : Block
  offset : Int64 := 0
  deriving DecidableEq

/-- The place at a distance from another one. -/
def Address.shift (place : Address) (distance : Int64) : Address :=
  { place with offset := place.offset + distance }

/-- What a slot can hold. A string is kept as it is written, with its quotes. Only
intermediate code computes with addresses. -/
inductive Value
  | word (bits : Int64)
  | text (literal : String)
  | address (place : Address)
  deriving DecidableEq

namespace Value

/-- The value of storage that nothing was written to. -/
def zero : Value := .word 0

/-- The word that a value is. -/
def word? : Value → Option Int64
  | .word bits => some bits
  | _ => none

/-- The place that a value points to. -/
def target : Value → Address
  | .address place => place
  | _ => ⟨.nowhere, 0⟩

end Value

/-- The word of a truth value. -/
def truthWord (truth : Bool) : Int64 := if truth then 1 else 0

/-- What the slots from some place on hold, given by their distance from it. -/
abbrev Contents := Int64 → Value

/-- The contents of all storage. -/
abbrev Memory := Address → Value

namespace Memory

/-- The memory in which nothing was written. -/
def empty : Memory := fun _ => .zero

/-- The memory with a value put into one slot. -/
def write (memory : Memory) (place : Address) (value : Value) : Memory :=
  fun other => if other = place then value else memory other

/-- What a memory holds from a place on. -/
def contents (memory : Memory) (place : Address) : Contents :=
  fun distance => memory (place.shift distance)

/-- Whether a place is one of a number of bytes from another one on. -/
def Covers (start : Address) (size : Int64) (place : Address) : Prop :=
  place.block = start.block ∧ 0 ≤ place.offset - start.offset ∧
    place.offset - start.offset < size

instance (start : Address) (size : Int64) (place : Address) :
    Decidable (Covers start size place) :=
  inferInstanceAs (Decidable (_ ∧ _ ∧ _))

/-- The memory with a number of bytes from a place on replaced. -/
def fill (memory : Memory) (start : Address) (size : Int64) (contents : Contents) : Memory :=
  fun place =>
    if Covers start size place then contents (place.offset - start.offset) else memory place

/-- The memory with a value of some type at a place. A record takes up as many bytes as its
type says, and all other values one slot. -/
def put (memory : Memory) (place : Address) (type : Ty) (contents : Contents) : Memory :=
  if type.isRecord then memory.fill place type.size contents else memory.write place (contents 0)

/-- The memory at the begin of an activation. -/
def clear (memory : Memory) (activation : Nat) : Memory :=
  fun place => if place.block.belongsTo activation then .zero else memory place

@[simp]
theorem write_self (memory : Memory) (place : Address) (value : Value) :
    memory.write place value place = value := by
  simp [write]

@[simp]
theorem write_of_ne (memory : Memory) {place other : Address} (value : Value)
    (hne : other ≠ place) : memory.write place value other = memory other := by
  simp [write, hne]

end Memory

/-- A value that was reported, with the type that decides how it is shown. -/
structure Output where
  type : Ty
  value : Value

/-- What can be seen of a run that has ended: what it reported, what it left of the input,
and what the global variables hold. -/
structure Observation where
  outputs : List Output
  inputs : List Int64
  globals : Nat → Contents

/-- What a memory holds in the global variables. -/
def Memory.globals (memory : Memory) : Nat → Contents :=
  fun symbol distance => memory ⟨.global symbol, distance⟩

/-- The value that a place of some type receives for a word of input. A truth value
is zero or one, whatever the word. -/
def Ty.receive (type : Ty) (word : Int64) : Value :=
  match type with
  | .bool => .word (truthWord (word ≠ 0))
  | _ => .word word

end Shanty
