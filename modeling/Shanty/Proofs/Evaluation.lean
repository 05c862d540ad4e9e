/-
# What programs mean

A program is run by calling its function `main`. The meaning of its parts is given by
evaluation: an expression takes one state of the world to another and has some contents, and a
statement takes one state to another and may return from its function.

All numbers are words of 64 bits and wrap around. Both sides of `&&` and `||` are evaluated. An
assignment evaluates its source, stores it, and has what the destination then holds. Arguments
and results are passed by value, records as a whole. A variable owns storage once for the whole
run if it is global, and once for each activation of its function otherwise. This storage is zero
at first, and a declaration that is executed again does not reset it.

A run is stuck where it divides by zero, computes with something that is no word, receives input
when there is none left, or uses the result of a function that returned none. Some runs go on
forever. So evaluation gets some fuel, of which each call and each turn of a loop use some, and
says so when it runs out. A program ends if it does with enough fuel.

Programs are evaluated after they have been checked: the symbols of names tell variables apart,
and the meaning of a node tells the layout of a record and how a value is shown.
-/

import Shanty.Proofs.Storage
import Shanty.Tree

namespace Shanty

namespace Tree

/-- The result of an operator on two words, if there is one. -/
def BinaryOp.apply : BinaryOp → Int64 → Int64 → Option Int64
  | .plus, left, right => some (left + right)
  | .minus, left, right => some (left - right)
  | .times, left, right => some (left * right)
  | .divide, left, right => if right = 0 then none else some (left / right)
  | .and, left, right => some (truthWord (left ≠ 0 && right ≠ 0))
  | .or, left, right => some (truthWord (left ≠ 0 || right ≠ 0))
  | .equal, left, right => some (truthWord (left = right))
  | .notEqual, left, right => some (truthWord (left ≠ right))
  | .less, left, right => some (truthWord (left < right))
  | .lessEqual, left, right => some (truthWord (left ≤ right))
  | .greater, left, right => some (truthWord (right < left))
  | .greaterEqual, left, right => some (truthWord (right ≤ left))

/-- The result of an operator on one word. -/
def UnaryOp.apply : UnaryOp → Int64 → Int64
  | .negate, word => -word
  | .not, word => truthWord (word = 0)

/-- The type of the value of a node. -/
def Node.type? (node : Node) : Option Ty :=
  match node.meaning with
  | some (.value type) => some type
  | _ => none

/-- The fields of the record that is the value of a node. -/
def Node.fields? (node : Node) : Option (List (String × Ty)) :=
  match node.type? with
  | some (.record _ _ fields) => some fields
  | _ => none

/-- The number of the global variable that a declaration introduces. -/
def Decl.global? : Decl → Option Nat
  | .var decl => decl.ident.symbol.map (·.number)
  | _ => none

/-- The function that a declaration introduces. -/
def Decl.function? : Decl → Option FnDecl
  | .fn decl => some decl
  | _ => none

/-- The numbers of the global variables of a program. -/
def Program.globals (program : Program) : List Nat := program.decls.filterMap Decl.global?

/-- The functions of a program. -/
def Program.functions (program : Program) : List FnDecl :=
  program.decls.filterMap Decl.function?

/-- The function with a name. -/
def Program.function? (program : Program) (name : String) : Option FnDecl :=
  program.functions.find? fun decl => decl.ident.name = name

end Tree

namespace Evaluation

open Shanty.Tree

/-- Why an evaluation has no result. -/
inductive Halt
  | outOfFuel
  | stuck

/-- The state of the world: memory, the input that is left, the output so far, and the number
of activations that have begun. -/
structure World where
  memory : Memory := .empty
  inputs : List Int64 := []
  outputs : List Output := []
  activations : Nat := 0

/-- What evaluating an expression leads to. -/
abbrev Evaluated := Except Halt (Contents × World)

/-- Something without which there is no way to go on. -/
def orStuck {α : Type} : Option α → Except Halt α
  | some answer => .ok answer
  | none => .error .stuck

/-- What is there lets an evaluation go on. -/
theorem orStuck_some_bind {α β : Type} (answer : α) (next : α → Except Halt β) :
    (orStuck (some answer) >>= next) = next answer :=
  rfl

/-- What surrounds the body of a function that is executed: the global variables, the
activation, and how to call a function. -/
structure Surroundings where
  globals : List Nat
  activation : Nat
  invoke : String → List Contents → World → Except Halt (Option Contents × World)

/-- The storage of a variable. -/
def Surroundings.blockOf (here : Surroundings) (symbol : Nat) : Block :=
  if symbol ∈ here.globals then .global symbol else .inside here.activation (.var symbol)

/-- The contents of a single slot. -/
def scalar (value : Value) : Contents := fun _ => value

/-- The place that an expression denotes. -/
def place? (here : Surroundings) : Expr → Option Address
  | .name ident => do return ⟨here.blockOf (← ident.symbol).number, 0⟩
  | .field _ base selector => do
    let start ← place? here base
    let field ← Ty.field? (← base.node.fields?) selector.name
    return start.shift field.offset
  | _ => none

/-- What a place holds. -/
def read (here : Surroundings) (place : Expr) (world : World) : Evaluated := do
  return (world.memory.contents (← orStuck (place? here place)), world)

mutual

/-- Evaluates an expression. -/
def expr (here : Surroundings) : Expr → World → Evaluated
  | .int _ value, world => .ok (scalar (.word (.ofNat value)), world)
  | .string _ text, world => .ok (scalar (.text text), world)
  | .bool _ value, world => .ok (scalar (.word (truthWord value)), world)
  | .name ident, world => read here (.name ident) world
  | .field node base selector, world => read here (.field node base selector) world
  | .unary _ op operand, world => do
    let (contents, world) ← expr here operand world
    let word ← orStuck (contents 0).word?
    return (scalar (.word (op.apply word)), world)
  | .binary _ op left right, world => do
    let (first, world) ← expr here left world
    let (second, world) ← expr here right world
    let leftWord ← orStuck (first 0).word?
    let rightWord ← orStuck (second 0).word?
    return (scalar (.word (← orStuck (op.apply leftWord rightWord))), world)
  | .assign _ target source, world => do
    let (contents, world) ← expr here source world
    let place ← orStuck (place? here target)
    let memory := world.memory.write place (contents 0)
    return (memory.contents place, { world with memory })
  | .call _ callee args, world => do
    let (values, world) ← exprs here args world
    let (result, world) ← here.invoke (← orStuck callee.symbol).name values world
    return (← orStuck result, world)

/-- Evaluates the expressions of a list one after the other. -/
def exprs (here : Surroundings) : List Expr → World → Except Halt (List Contents × World)
  | [], world => .ok ([], world)
  | first :: rest, world => do
    let (contents, world) ← expr here first world
    let (others, world) ← exprs here rest world
    return (contents :: others, world)

end

/-- Whether execution goes on with the next statement or returns from the function. -/
inductive Flow
  | next
  | done (result : Option Contents)

/-- What executing a statement leads to. -/
abbrev Executed := Except Halt (Flow × World)

/-- The result of a function after its body has been executed. -/
def Flow.result : Flow → Option Contents
  | .next => none
  | .done result => result

/-- Goes on after a part has been executed unless that returned from the function. -/
def andThen (outcome : Executed) (next : World → Executed) : Executed := do
  match ← outcome with
  | (.next, world) => next world
  | (.done result, world) => return (.done result, world)

/-- Chooses between two ways by a condition. -/
def choose (condition : Evaluated) (yes no : World → Executed) : Executed := do
  let (contents, world) ← condition
  if contents 0 = .zero then no world else yes world

/-- Executes a body as long as a condition holds. -/
def loop (condition : World → Evaluated) (body : World → Executed) :
    Nat → World → Executed
  | 0, _ => .error .outOfFuel
  | fuel + 1, world =>
    choose (condition world) (fun world => andThen (body world) (loop condition body fuel))
      fun world => .ok (.next, world)

/-- Counts a place up or down. -/
def count (here : Surroundings) (place : Expr) (change : Int64 → Int64) (world : World) :
    Executed := do
  let place ← orStuck (place? here place)
  let word ← orStuck (world.memory place).word?
  return (.next, { world with memory := world.memory.write place (.word (change word)) })

/-- Receives a word of input into a place. -/
def receive (here : Surroundings) (place : Expr) (world : World) : Executed := do
  let type ← orStuck place.node.type?
  let place ← orStuck (place? here place)
  match world.inputs with
  | [] => .error .stuck
  | word :: inputs =>
    return (.next, { world with
      inputs, memory := world.memory.write place (type.receive word) })

mutual

/-- Executes a statement. Each loop in it may turn as often as there is fuel. -/
def stmt (here : Surroundings) (fuel : Nat) : Stmt → World → Executed
  | .declare _, world => .ok (.next, world)
  | .assign _ inner target source, world => do
    let (_, world) ← expr here (.assign inner target source) world
    return (.next, world)
  | .increment _ place, world => count here place (· + 1) world
  | .decrement _ place, world => count here place (· - 1) world
  | .receive _ place, world => receive here place world
  | .report _ source, world => do
    let (contents, world) ← expr here source world
    let type ← orStuck source.node.type?
    return (.next, { world with outputs := world.outputs ++ [⟨type, contents 0⟩] })
  | .return _ none, world => .ok (.done none, world)
  | .return _ (some value), world => do
    let (contents, world) ← expr here value world
    return (.done (some contents), world)
  | .call _ _ callee args, world => do
    let (values, world) ← exprs here args world
    let (_, world) ← here.invoke (← orStuck callee.symbol).name values world
    return (.next, world)
  | .if _ condition body, world =>
    choose (expr here condition world) (block here fuel body) fun world => .ok (.next, world)
  | .ifElse _ condition body otherwise, world =>
    choose (expr here condition world) (block here fuel body) (block here fuel otherwise)
  | .while _ condition body, world =>
    loop (expr here condition) (block here fuel body) fuel world

/-- Executes the statements of a block. -/
def block (here : Surroundings) (fuel : Nat) : List Stmt → World → Executed
  | [], world => .ok (.next, world)
  | first :: rest, world => andThen (stmt here fuel first world) (block here fuel rest)

end

/-- The memory after the formal parameters of an activation have received their arguments. -/
def receiveArgs (activation : Nat) : List VarDecl → List Contents → Memory → Option Memory
  | [], [], memory => some memory
  | formal :: formals, contents :: rest, memory => do
    let symbol ← formal.ident.symbol
    let place := ⟨.inside activation (.var symbol.number), 0⟩
    receiveArgs activation formals rest (memory.put place symbol.type contents)
  | _, _, _ => none

/-- Calls a function of a program. All storage of the new activation is zero at first. -/
def invoke (program : Program) :
    Nat → String → List Contents → World → Except Halt (Option Contents × World)
  | 0, _, _, _ => .error .outOfFuel
  | fuel + 1, name, args, world => do
    let decl ← orStuck (program.function? name)
    let activation := world.activations
    let memory ← orStuck
      (receiveArgs activation decl.formals args (world.memory.clear activation))
    let (flow, world) ← block ⟨program.globals, activation, invoke program fuel⟩ fuel decl.body
      { world with memory, activations := activation + 1 }
    return (flow.result, world)

/-- What can be seen of the world. -/
def World.observation (world : World) : Observation :=
  ⟨world.outputs, world.inputs, world.memory.globals⟩

/-- Calling the function `main` of a program ends, and this is what can be seen then. -/
def Ends (program : Program) (inputs : List Int64) (observation : Observation) : Prop :=
  ∃ fuel result world, invoke program fuel "main" [] { inputs } = .ok (result, world) ∧
    world.observation = observation

end Evaluation

end Shanty
