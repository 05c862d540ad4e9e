/-
# Running intermediate code

A machine that runs the procedures of a program quad by quad. Each activation of a
procedure has its own variables and temporaries. Arguments are set one by one and
handed over by the call; a result is set by the procedure and fetched by its caller.
A record is passed and returned by its address, and the receiver copies it from
there; the storage of an activation that has ended is not used again, so the address
of a result stays good until it is fetched.

A machine is stuck where it would have to divide by zero, to compute with something
that is no word, to receive input when there is none left, to fetch what was not set,
to jump to a label or call a procedure that does not exist, or to go on behind the
last quad. It has finished when the last activation has been left. A run is a
sequence of steps; the machine leaves no choice.

The position in a procedure is the list of the quads that are still in front, so a
jump looks for the first quad with the label and goes on from there.
-/

import Shanty.Code.Program
import Shanty.Proofs.Storage
import Shanty.Text.Number

namespace Shanty.Code

/-- The result of an operation on two words, if there is one. -/
def BinaryOp.apply : BinaryOp → Int64 → Int64 → Option Int64
  | .add, left, right => some (left + right)
  | .sub, left, right => some (left - right)
  | .mult, left, right => some (left * right)
  | .div, left, right => if right = 0 then none else some (left / right)
  | .eq, left, right => some (truthWord (left = right))
  | .neq, left, right => some (truthWord (left ≠ right))
  | .lt, left, right => some (truthWord (left < right))
  | .gt, left, right => some (truthWord (right < left))
  | .lte, left, right => some (truthWord (left ≤ right))
  | .gte, left, right => some (truthWord (right ≤ left))
  | .and, left, right => some (truthWord (left ≠ 0 && right ≠ 0))
  | .or, left, right => some (truthWord (left ≠ 0 || right ≠ 0))

/-- The result of an operation on one word. -/
def UnaryOp.apply : UnaryOp → Int64 → Int64
  | .neg, word => -word
  | .not, word => truthWord (word = 0)

/-- The word that a constant is written for. -/
def constantWord (text : String) : Int64 := .ofInt ((Text.readInt? text).getD 0)

/-- The arguments that have been set, by position. -/
abbrev Arguments := Int → Option Value

/-- What all activations share: memory, the input that is left, the output so far,
the number of activations that have begun, the arguments set for the next call and
the result of the last one. -/
structure Store where
  memory : Memory := .empty
  inputs : List Int64 := []
  outputs : List Output := []
  activations : Nat := 0
  passed : Arguments := fun _ => none
  returned : Option Value := none

/-- What one activation of a procedure has for itself besides storage: its number,
the arguments that it was called with, and the result that it has set. -/
structure Activation where
  number : Nat
  args : Arguments
  result : Option Value := none

/-- An activation under way, with the quads in front of it. -/
structure Frame where
  procedure : Procedure
  activation : Activation
  rest : List Quad

/-- The machine: the store and the activations that have begun but not ended, the
innermost first. -/
structure Config where
  store : Store
  frames : List Frame

/-- The storage of a variable as an activation sees it. -/
def Program.blockOf (program : Program) (activation : Nat) (var : Variable) : Block :=
  if program.globals.contains var then .global var.symbol else .inside activation var.slot

/-- The storage of a temporary of an activation. -/
def Temp.home (temp : Temp) (activation : Nat) : Address := ⟨.inside activation temp.slot, 0⟩

namespace Operand

/-- The place that an operand stands for. -/
def place (program : Program) (memory : Memory) (activation : Nat) : Operand → Address
  | .var v => ⟨program.blockOf activation v, 0⟩
  | .temp t => t.home activation
  | .address t => (memory (t.home activation)).target
  | .constant _ | .string _ | .nothing => ⟨.nowhere, 0⟩

/-- The value that an operand stands for. -/
def value (program : Program) (memory : Memory) (activation : Nat) : Operand → Value
  | .constant text => .word (constantWord text)
  | .string index => .text (program.strings[index]?.getD "")
  | .nothing => .zero
  | operand => memory (operand.place program memory activation)

/-- What is handed over for an operand: its address if it is a record and its value
otherwise. -/
def handed (program : Program) (memory : Memory) (activation : Nat) (isRecord : Bool)
    (operand : Operand) : Value :=
  if isRecord then .address (operand.place program memory activation)
  else operand.value program memory activation

/-- The number of bytes at the place of an operand. -/
def extent (operand : Operand) : Int64 :=
  match operand.width with
  | .ok width => width
  | .error _ => 0

end Operand

namespace Store

/-- The store with a value at the place of an operand. -/
def assign (store : Store) (program : Program) (activation : Nat) (target : Operand)
    (value : Value) : Store :=
  let place := target.place program store.memory activation
  { store with memory := store.memory.write place value }

/-- The store after an operand has received what was handed over for it. -/
def accept (store : Store) (program : Program) (activation : Nat) (target : Operand)
    (isRecord : Bool) (handed : Value) : Store :=
  if isRecord then
    let place := target.place program store.memory activation
    let contents := store.memory.contents handed.target
    { store with memory := store.memory.fill place target.extent contents }
  else store.assign program activation target handed

end Store

/-- What an instruction does to the store and to its activation, apart from where
the machine goes on. -/
def Instr.effect (program : Program) (store : Store) (self : Activation) :
    Instr → Option (Store × Activation)
  | .binary op target left right => do
    let first ← (left.value program store.memory self.number).word?
    let second ← (right.value program store.memory self.number).word?
    return (store.assign program self.number target (.word (← op.apply first second)), self)
  | .unary op target source => do
    let word ← (source.value program store.memory self.number).word?
    return (store.assign program self.number target (.word (op.apply word)), self)
  | .assign target source =>
    let value := source.value program store.memory self.number
    some (store.assign program self.number target value, self)
  | .index target base offset =>
    let place := (base.place program store.memory self.number).shift (constantWord offset)
    let memory := store.memory.write (target.home self.number) (.address place)
    some ({ store with memory }, self)
  | .goto _ | .ifZero _ _ | .nop | .call _ | .leave _ => some (store, self)
  | .enter _ => some ({ store with memory := store.memory.clear self.number }, self)
  | .setArg position source type =>
    let value := source.handed program store.memory self.number type.isRecord
    let passed other := if other = position then some value else store.passed other
    some ({ store with passed }, self)
  | .getArg position _ target isRecord => do
    return (store.accept program self.number target isRecord (← self.args position), self)
  | .setRet source isRecord =>
    let value := source.handed program store.memory self.number isRecord
    some (store, { self with result := some value })
  | .getRet target isRecord => do
    return (store.accept program self.number target isRecord (← store.returned), self)
  | .output source type =>
    let value := source.value program store.memory self.number
    some ({ store with outputs := store.outputs ++ [⟨type, value⟩] }, self)
  | .input target type =>
    match store.inputs with
    | [] => none
    | word :: inputs =>
      some ({ store with inputs }.assign program self.number target (type.receive word), self)

/-- Where the machine goes on after an instruction. -/
inductive Course
  | next
  | jump (label : Label)
  | call (procedure : String)
  | leave

/-- Where the machine goes on after an instruction in a given store. -/
def Instr.course (program : Program) (store : Store) (self : Activation) : Instr → Course
  | .goto label => .jump label
  | .ifZero condition label =>
    if condition.value program store.memory self.number = .zero then .jump label else .next
  | .call callee => .call callee
  | .leave _ => .leave
  | _ => .next

/-- The quads from the first one with a label on. -/
def seek (label : Label) (quads : List Quad) : List Quad :=
  quads.dropWhile fun quad => !quad.hasLabel label

/-- The labels that some quads carry. -/
def labelsOf (quads : List Quad) : List Label := quads.flatMap (·.labels)

@[simp]
theorem labelsOf_nil : labelsOf [] = [] := rfl

@[simp]
theorem labelsOf_append (front back : List Quad) :
    labelsOf (front ++ back) = labelsOf front ++ labelsOf back :=
  List.flatMap_append

@[simp]
theorem labelsOf_cons (quad : Quad) (rest : List Quad) :
    labelsOf (quad :: rest) = quad.labels ++ labelsOf rest :=
  List.flatMap_cons

theorem seek_cons_of_mem {label : Label} {quad : Quad} {rest : List Quad}
    (hmem : label ∈ quad.labels) : seek label (quad :: rest) = quad :: rest := by
  simp [seek, Quad.hasLabel, hmem]

theorem seek_cons_of_not_mem {label : Label} {quad : Quad} {rest : List Quad}
    (hnot : label ∉ quad.labels) : seek label (quad :: rest) = seek label rest := by
  simp [seek, Quad.hasLabel, hnot]

/-- A label is found at the quad that carries it if no quad before does. -/
theorem seek_append_cons {label : Label} {front : List Quad} {quad : Quad} {rest : List Quad}
    (hfront : label ∉ labelsOf front) (hmem : label ∈ quad.labels) :
    seek label (front ++ quad :: rest) = quad :: rest := by
  induction front with
  | nil => exact seek_cons_of_mem hmem
  | cons first front ih =>
      simp only [labelsOf, List.flatMap_cons, List.mem_append, not_or] at hfront
      rw [List.cons_append, seek_cons_of_not_mem hfront.1]
      exact ih hfront.2

theorem seek_ne_nil {label : Label} {quads : List Quad} (hmem : label ∈ labelsOf quads) :
    seek label quads ≠ [] := by
  induction quads with
  | nil => simp [labelsOf] at hmem
  | cons quad rest ih =>
      by_cases hquad : label ∈ quad.labels
      · rw [seek_cons_of_mem hquad]; simp
      · rw [seek_cons_of_not_mem hquad]
        exact ih (by simpa [labelsOf, hquad] using hmem)

theorem seek_suffix (label : Label) (quads : List Quad) : seek label quads <:+ quads :=
  List.dropWhile_suffix _

/-- The procedure with a name. -/
def Program.procedure? (program : Program) (name : String) : Option Procedure :=
  program.procedures.find? fun procedure => procedure.name = name

/-- A new activation of a procedure, with the arguments that have been set. -/
def Procedure.begin (procedure : Procedure) (store : Store) : Frame :=
  ⟨procedure, { number := store.activations, args := store.passed }, procedure.quads⟩

/-- The store after a new activation has begun. -/
def Store.handOver (store : Store) : Store :=
  { store with activations := store.activations + 1, passed := fun _ => none, returned := none }

/-- Continues along a course from an activation with the given quads behind it. -/
def proceed (program : Program) (store : Store) (frame : Frame) (callers : List Frame) :
    Course → Option Config
  | .next => some ⟨store, frame :: callers⟩
  | .jump label =>
    match seek label frame.procedure.quads with
    | [] => none
    | rest => some ⟨store, { frame with rest } :: callers⟩
  | .call callee => do
    let procedure ← program.procedure? callee
    return ⟨store.handOver, procedure.begin store :: frame :: callers⟩
  | .leave => some ⟨{ store with returned := frame.activation.result }, callers⟩

/-- Runs one quad. -/
def step (program : Program) (config : Config) : Option Config :=
  match config.frames with
  | [] => none
  | frame :: callers =>
    match frame.rest with
    | [] => none
    | quad :: rest => do
      let (store, activation) ← quad.instr.effect program config.store frame.activation
      proceed program store { frame with activation, rest } callers
        (quad.instr.course program config.store frame.activation)

/-- The machine after a number of steps. -/
def steps (program : Program) : Nat → Config → Option Config
  | 0, config => some config
  | count + 1, config => do steps program count (← step program config)

/-- Whether a run ends with a given store after all activations have been left. -/
def Finishes (program : Program) (config : Config) (store : Store) : Prop :=
  ∃ count, steps program count config = some ⟨store, []⟩

end Shanty.Code
