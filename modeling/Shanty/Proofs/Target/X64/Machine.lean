/-
# A machine for x86-64 code

What the instructions of emitted programs do to registers, memory and flags. The machine is stuck
where an instruction cannot be encoded, such as one with two places in memory or with a constant that
takes more than 32 bits, where a division is refused, and where a condition is asked for after
something else than a comparison.

Of the instructions that move operands around it is shown what they do as a whole: which word they
fetch or put down, and which registers they may have changed on the way.
-/

import Shanty.Proofs.Fault
import Shanty.Proofs.Target.Execution
import Shanty.Proofs.Target.Frames
import Shanty.Target.X64.Emission

namespace Shanty.Target.X64

open Code (Operand stringLabel)

/-! ## States -/

/-- The state of the machine. -/
structure State where
  regs : Reg → BitVec 64
  bytes : Bytes 64
  /-- The two words that the flags tell about, if they were set by comparing them. -/
  compared : Option (BitVec 64 × BitVec 64) := none

namespace State

/-- The state with a new word in a register. -/
def set (state : State) (reg : Reg) (word : BitVec 64) : State :=
  { state with regs := Function.update state.regs reg word }

/-- The state after the flags were set by something else than a comparison. -/
def unflag (state : State) : State := { state with compared := none }

/-- The state with a new word in memory. -/
def put (state : State) (address word : BitVec 64) : State :=
  { state with bytes := state.bytes.write address word }

/-- What operands are found through in a state. -/
def scene (labels : String → BitVec 64) (state : State) : Scene 64 :=
  ⟨state.regs .rbp, labels, state.bytes⟩

@[simp]
theorem set_regs_self (state : State) (reg : Reg) (word : BitVec 64) :
    (state.set reg word).regs reg = word := Function.update_self ..

@[simp]
theorem set_regs_of_ne (state : State) {reg other : Reg} (word : BitVec 64) (hne : other ≠ reg) :
    (state.set reg word).regs other = state.regs other := Function.update_of_ne hne ..

@[simp]
theorem set_bytes (state : State) (reg : Reg) (word : BitVec 64) :
    (state.set reg word).bytes = state.bytes := rfl

@[simp]
theorem put_regs (state : State) (address word : BitVec 64) :
    (state.put address word).regs = state.regs := rfl

@[simp]
theorem put_bytes (state : State) (address word : BitVec 64) :
    (state.put address word).bytes = state.bytes.write address word := rfl

@[simp]
theorem unflag_regs (state : State) : state.unflag.regs = state.regs := rfl

@[simp]
theorem unflag_bytes (state : State) : state.unflag.bytes = state.bytes := rfl

/-- Two states differ in nothing but some registers and the flags. -/
structure Keeps (scratch : List Reg) (state state' : State) : Prop where
  bytes : state'.bytes = state.bytes
  regs : ∀ reg ∉ scratch, state'.regs reg = state.regs reg

theorem Keeps.refl (scratch : List Reg) (state : State) : state.Keeps scratch state :=
  ⟨rfl, fun _ _ => rfl⟩

theorem Keeps.mono {scratch scratch' : List Reg} {state state' : State}
    (hkeeps : state.Keeps scratch state') (hsubset : scratch ⊆ scratch') :
    state.Keeps scratch' state' :=
  ⟨hkeeps.bytes, fun reg hreg => hkeeps.regs reg fun hmem => hreg (hsubset hmem)⟩

theorem Keeps.trans {scratch : List Reg} {first second third : State}
    (hfirst : first.Keeps scratch second) (hsecond : second.Keeps scratch third) :
    first.Keeps scratch third :=
  ⟨hsecond.bytes.trans hfirst.bytes, fun reg hreg =>
    (hsecond.regs reg hreg).trans (hfirst.regs reg hreg)⟩

theorem Keeps.set (state : State) (reg : Reg) (word : BitVec 64) :
    state.Keeps [reg] (state.set reg word) :=
  ⟨rfl, fun _ hother => set_regs_of_ne state word fun heq => hother (heq ▸ List.mem_singleton_self _)⟩

/-- Operands are found as before if the frame pointer is kept. -/
theorem Keeps.scene_eq {scratch : List Reg} {state state' : State}
    (hkeeps : state.Keeps scratch state') (hframe : .rbp ∉ scratch) (labels : String → BitVec 64) :
    state'.scene labels = state.scene labels := by
  rw [scene, scene, hkeeps.bytes, hkeeps.regs _ hframe]

end State

/-! ## Instructions -/

/-- The address of a place in memory. -/
def Mem.address? (labels : String → BitVec 64) (state : State) : Mem → Option (BitVec 64)
  | .storage location => location.address? .x64 (state.scene labels)
  | .data label => some (labels label)
  | .through reg => some (state.regs reg)
  | .offset distance reg => some (state.regs reg + distance.toBitVec)

/-- Whether an argument lies in memory. -/
def Arg.isMem : Arg → Bool
  | .mem _ => true
  | _ => false

/-- The word of an argument. -/
def Arg.word? (labels : String → BitVec 64) (state : State) : Arg → Option (BitVec 64)
  | .reg source => some (state.regs source)
  | .imm text => immediate? 64 text
  | .mem place => (place.address? labels state).map state.bytes.read

/-- The state with a new word in an argument. -/
def Arg.assign? (labels : String → BitVec 64) (state : State) (word : BitVec 64) :
    Arg → Option State
  | .reg target => some (state.set target word)
  | .imm _ => none
  | .mem place => (place.address? labels state).map (state.put · word)

/-- The result of an operation, the destination coming first. -/
def ArithOp.apply : ArithOp → BitVec 64 → BitVec 64 → BitVec 64
  | .add, first, second => first + second
  | .sub, first, second => first - second
  | .imul, first, second => first * second
  | .and, first, second => first &&& second
  | .or, first, second => first ||| second
  | .xor, first, second => first ^^^ second

/-- Whether a condition holds after two words have been compared. -/
def Condition.holds : Condition → BitVec 64 → BitVec 64 → Bool
  | .equal, first, second => first = second
  | .notEqual, first, second => first ≠ second
  | .less, first, second => first.toInt < second.toInt
  | .greater, first, second => second.toInt < first.toInt
  | .lessEqual, first, second => first.toInt ≤ second.toInt
  | .greaterEqual, first, second => second.toInt ≤ first.toInt

/-- A word with another lowest byte. -/
def withLowByte (word : BitVec 64) (byte : BitVec 8) : BitVec 64 := word.extractLsb' 8 56 ++ byte

/-- A word full of the sign of another one. -/
def signOf (word : BitVec 64) : BitVec 64 := if word.msb then -1 else 0

/-- The quotient and the remainder of a number of 128 bits, unless the divisor is zero or the quotient
is too large. -/
def divide? (dividend : BitVec 128) (divisor : BitVec 64) : Option (BitVec 64 × BitVec 64) :=
  let quotient := dividend.toInt.tdiv divisor.toInt
  if divisor = 0 then none
  else if quotient < -2 ^ 63 ∨ 2 ^ 63 ≤ quotient then none
  else some (BitVec.ofInt 64 quotient, BitVec.ofInt 64 (dividend.toInt.tmod divisor.toInt))

/-- What an instruction does, and where the machine goes on. The return address of a call is not
part of this. -/
def exec (labels : String → BitVec 64) : Instr → State → Option (State × Route)
  | .mov source target, state => do
    if source.isMem && target.isMem then none
    else return (← target.assign? labels state (← source.word? labels state), .next)
  | .lea source target, state => do
    return (state.set target (← source.address? labels state), .next)
  | .arith op source target, state => do
    if source.isMem && target.isMem then none
    else
      let word := op.apply (← target.word? labels state) (← source.word? labels state)
      return ((← target.assign? labels state word).unflag, .next)
  | .cmp first second, state => do
    let compared := some (← second.word? labels state, ← first.word? labels state)
    return ({ state with compared }, .next)
  | .setLow condition, state => do
    let (first, second) ← state.compared
    let byte : BitVec 8 := if condition.holds first second then 1 else 0
    return (state.set .rax (withLowByte (state.regs .rax) byte), .next)
  | .extendLow, state =>
    some (state.set .rax (((state.regs .rax).setWidth 8).setWidth 64), .next)
  | .dec target, state => some ((state.set target (state.regs target - 1)).unflag, .next)
  | .neg target, state => some ((state.set target (-state.regs target)).unflag, .next)
  | .extendSign, state => some (state.set .rdx (signOf (state.regs .rax)), .next)
  | .idiv divisor, state => do
    let (quotient, remainder) ← divide? (state.regs .rdx ++ state.regs .rax) (state.regs divisor)
    return (((state.set .rax quotient).set .rdx remainder).unflag, .next)
  | .push source, state =>
    let top := state.regs .rsp - 8
    some ((state.put top (state.regs source)).set .rsp top, .next)
  | .pop target, state =>
    let top := state.regs .rsp
    some ((state.set .rsp (top + 8)).set target (state.bytes.read top), .next)
  | .jump label, state => some (state, .jump label)
  | .jumpIfEqual label, state => do
    let (first, second) ← state.compared
    return (state, if first = second then .jump label else .next)
  | .call label, state => some (state, .call label)
  | .ret, state => some (state.set .rsp (state.regs .rsp + 8), .ret)
  | .nop, state => some (state, .next)

/-! ## Moving operands -/

section Operands

variable {labels : String → BitVec 64} {placement : Placement} {operand : Operand} {reg : Reg}
  {state : State} {code : List Instr} {word address : BitVec 64}

theorem exec_mov_reg {source : Arg} (hword : source.word? labels state = some word) :
    exec labels (.mov source (.reg reg)) state = some (state.set reg word, .next) := by
  simp [exec, Arg.isMem, Arg.assign?, hword]

theorem exec_mov_mem {place : Mem} (haddress : place.address? labels state = some address) :
    exec labels (.mov (.reg reg) (.mem place)) state =
      some (state.put address (state.regs reg), .next) := by
  simp [exec, Arg.isMem, Arg.assign?, Arg.word?, haddress]

theorem exec_lea {place : Mem} (haddress : place.address? labels state = some address) :
    exec labels (.lea place reg) state = some (state.set reg address, .next) := by
  simp [exec, haddress]

/-- The storage of an address temporary, followed through a register. -/
theorem exec_follow {temp : Code.Temp} (hresidence :
      residence? .x64 placement (state.scene labels) (.address temp) = some address) :
    exec labels (.mov (.mem (.storage (placement temp.slot))) (.reg reg)) state =
      some (state.set reg address, .next) :=
  exec_mov_reg hresidence

/-- Loading an operand fetches its word. -/
theorem load_runs (hload : load placement operand reg = .ok code)
    (hcontent : content? .x64 placement (state.scene labels) operand = some word) :
    ∃ state', run (exec labels) code state = some (state', .next) ∧ state'.regs reg = word ∧
      state.Keeps [.r11, reg] state' := by
  have hone : ∀ instr, load placement operand reg = .ok [instr] →
      exec labels instr state = some (state.set reg word, .next) →
      ∃ state', run (exec labels) code state = some (state', .next) ∧ state'.regs reg = word ∧
        state.Keeps [.r11, reg] state' := by
    intro instr hinstr hexec
    cases hload.symm.trans hinstr
    exact ⟨_, run_single hexec, state.set_regs_self reg word,
      (State.Keeps.set state reg word).mono (by simp)⟩
  cases operand with
  | constant text => exact hone _ rfl (exec_mov_reg hcontent)
  | string index => exact hone _ rfl (exec_lea hcontent)
  | var var => exact hone _ rfl (exec_mov_reg hcontent)
  | temp temp => exact hone _ rfl (exec_mov_reg hcontent)
  | address temp =>
      cases hload
      obtain ⟨address, haddress, hword⟩ := Option.map_eq_some_iff.1 hcontent
      have hthrough : Arg.word? labels (state.set .r11 address) (.mem (.through .r11)) = some word :=
        by simp [Arg.word?, Mem.address?, ← hword, State.scene]
      refine ⟨(state.set .r11 address).set reg word, ?_, State.set_regs_self _ reg word, ?_⟩
      · rw [run_cons_next (exec_follow haddress)]
        exact run_single (exec_mov_reg hthrough)
      · exact ((State.Keeps.set _ .r11 address).mono (by simp)).trans
          ((State.Keeps.set _ reg word).mono (by simp))
  | nothing => cases hcontent

/-- Storing a register puts its word where the operand is. -/
theorem store_runs (hstore : store placement reg operand = .ok code) (hreg : reg ≠ .r11)
    (hresidence : residence? .x64 placement (state.scene labels) operand = some address) :
    ∃ state', run (exec labels) code state = some (state', .next) ∧
      state'.bytes = state.bytes.write address (state.regs reg) ∧
      ∀ other ≠ .r11, state'.regs other = state.regs other := by
  have hone : ∀ location, store placement reg operand =
        .ok [.mov (.reg reg) (.mem (.storage location))] →
      location.address? .x64 (state.scene labels) = some address →
      ∃ state', run (exec labels) code state = some (state', .next) ∧
        state'.bytes = state.bytes.write address (state.regs reg) ∧
        ∀ other ≠ .r11, state'.regs other = state.regs other := by
    intro location hcode haddress
    cases hstore.symm.trans hcode
    exact ⟨_, run_single (exec_mov_mem haddress), rfl, fun _ _ => rfl⟩
  cases operand with
  | var var => exact hone _ rfl hresidence
  | temp temp => exact hone _ rfl hresidence
  | address temp =>
      cases hstore
      have hthrough : Mem.address? labels (state.set .r11 address) (.through .r11) = some address :=
        by simp [Mem.address?]
      refine ⟨(state.set .r11 address).put address ((state.set .r11 address).regs reg), ?_, ?_, ?_⟩
      · rw [run_cons_next (exec_follow hresidence)]
        exact run_single (exec_mov_mem hthrough)
      · simp [hreg]
      · intro other hother
        simp [hother]
  | constant => cases hresidence
  | string => cases hresidence
  | nothing => cases hresidence

/-- The address of an operand is put into a register. -/
theorem addressOf_runs (haddressOf : addressOf placement operand reg = .ok code)
    (hresidence : residence? .x64 placement (state.scene labels) operand = some address) :
    run (exec labels) code state = some (state.set reg address, .next) := by
  have hone : ∀ instr, addressOf placement operand reg = .ok [instr] →
      exec labels instr state = some (state.set reg address, .next) →
      run (exec labels) code state = some (state.set reg address, .next) := by
    intro instr hinstr hexec
    cases haddressOf.symm.trans hinstr
    exact run_single hexec
  cases operand with
  | var var => exact hone _ rfl (exec_lea hresidence)
  | temp temp => exact hone _ rfl (exec_lea hresidence)
  | address temp => exact hone _ rfl (exec_follow hresidence)
  | constant => cases hresidence
  | string => cases hresidence
  | nothing => cases hresidence

end Operands

end Shanty.Target.X64
