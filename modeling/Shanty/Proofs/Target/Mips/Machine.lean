/-
# A machine for MIPS code

What the instructions of emitted programs do to registers and memory. The machine is stuck where an
instruction cannot be assembled, such as one with a constant that takes more than 32 bits, where the
result of signed arithmetic overflows, and where a division is refused. Addresses of words need not
be aligned.

Of the instructions that fetch operands it is shown what they do as a whole: which word they fetch,
and which registers they may have changed on the way.
-/

import Shanty.Proofs.Target.Execution
import Shanty.Proofs.Target.Frames
import Shanty.Target.Mips.Emission

namespace Shanty.Target.Mips

open Code (Operand stringLabel)

/-! ## States -/

/-- The state of the machine. -/
structure State where
  regs : Reg → BitVec 32
  bytes : Bytes 32

namespace State

/-- The word in a register. One register is always zero. -/
def get (state : State) : Reg → BitVec 32
  | .zero => 0
  | reg => state.regs reg

/-- The state with a new word in a register. -/
def set (state : State) (reg : Reg) (word : BitVec 32) : State :=
  { state with regs := Function.update state.regs reg word }

/-- The state with a new word in memory. -/
def put (state : State) (address word : BitVec 32) : State :=
  { state with bytes := state.bytes.write address word }

/-- What operands are found through in a state. -/
def scene (labels : String → BitVec 32) (state : State) : Scene 32 :=
  ⟨state.get .fp, labels, state.bytes⟩

theorem get_eq (state : State) {reg : Reg} (hreg : reg ≠ .zero) : state.get reg = state.regs reg := by
  cases reg with
  | zero => exact absurd rfl hreg
  | _ => rfl

theorem set_get_self (state : State) {reg : Reg} (word : BitVec 32) (hreg : reg ≠ .zero) :
    (state.set reg word).get reg = word := by
  rw [get_eq _ hreg]
  exact Function.update_self ..

@[simp]
theorem set_get_of_ne (state : State) {reg other : Reg} (word : BitVec 32) (hne : other ≠ reg) :
    (state.set reg word).get other = state.get other := by
  by_cases hzero : other = .zero
  · rw [hzero]
    rfl
  · rw [get_eq _ hzero, get_eq _ hzero]
    exact Function.update_of_ne hne ..

@[simp]
theorem set_bytes (state : State) (reg : Reg) (word : BitVec 32) :
    (state.set reg word).bytes = state.bytes := rfl

@[simp]
theorem put_get (state : State) (address word : BitVec 32) (reg : Reg) :
    (state.put address word).get reg = state.get reg := by
  cases reg <;> rfl

@[simp]
theorem put_bytes (state : State) (address word : BitVec 32) :
    (state.put address word).bytes = state.bytes.write address word := rfl

/-- Two states differ in nothing but some registers. -/
structure Keeps (scratch : List Reg) (state state' : State) : Prop where
  bytes : state'.bytes = state.bytes
  regs : ∀ reg ∉ scratch, state'.get reg = state.get reg

theorem Keeps.mono {scratch scratch' : List Reg} {state state' : State}
    (hkeeps : state.Keeps scratch state') (hsubset : scratch ⊆ scratch') :
    state.Keeps scratch' state' :=
  ⟨hkeeps.bytes, fun reg hreg => hkeeps.regs reg fun hmem => hreg (hsubset hmem)⟩

theorem Keeps.trans {scratch : List Reg} {first second third : State}
    (hfirst : first.Keeps scratch second) (hsecond : second.Keeps scratch third) :
    first.Keeps scratch third :=
  ⟨hsecond.bytes.trans hfirst.bytes, fun reg hreg =>
    (hsecond.regs reg hreg).trans (hfirst.regs reg hreg)⟩

theorem Keeps.set (state : State) (reg : Reg) (word : BitVec 32) :
    state.Keeps [reg] (state.set reg word) :=
  ⟨rfl, fun _ hother => set_get_of_ne state word fun heq => hother (heq ▸ List.mem_singleton_self _)⟩

end State

/-! ## Instructions -/

/-- The address of a place in memory. -/
def Mem.address? (labels : String → BitVec 32) (state : State) : Mem → Option (BitVec 32)
  | .storage location => location.address? .mips (state.scene labels)
  | .data label => some (labels label)
  | .offset distance reg => some (state.get reg + BitVec.ofInt 32 distance.toInt)

/-- A sum, unless it overflows. -/
def add? (first second : BitVec 32) : Option (BitVec 32) :=
  if first.saddOverflow second then none else some (first + second)

/-- A difference, unless it overflows. -/
def sub? (first second : BitVec 32) : Option (BitVec 32) :=
  if first.ssubOverflow second then none else some (first - second)

/-- A quotient, unless the divisor is zero or the quotient is too large. -/
def divide? (first second : BitVec 32) : Option (BitVec 32) :=
  if second = 0 ∨ first.sdivOverflow second then none else some (first.sdiv second)

/-- A truth value as a word. -/
def ofBool (value : Bool) : BitVec 32 := if value then 1 else 0

/-- The result of an operation. -/
def outcome? : Code.BinaryOp → BitVec 32 → BitVec 32 → Option (BitVec 32)
  | .add, first, second => add? first second
  | .sub, first, second => sub? first second
  | .mult, first, second => some (first * second)
  | .div, first, second => divide? first second
  | .and, first, second => some (first &&& second)
  | .or, first, second => some (first ||| second)
  | .eq, first, second => some (ofBool (first = second))
  | .neq, first, second => some (ofBool (first ≠ second))
  | .lt, first, second => some (ofBool (first.toInt < second.toInt))
  | .gt, first, second => some (ofBool (second.toInt < first.toInt))
  | .lte, first, second => some (ofBool (first.toInt ≤ second.toInt))
  | .gte, first, second => some (ofBool (second.toInt ≤ first.toInt))

/-- A number as part of an instruction, which must fit into 32 bits. -/
def amount? (number : Int) : Option (BitVec 32) :=
  if -2 ^ 31 ≤ number ∧ number < 2 ^ 31 then some (BitVec.ofInt 32 number) else none

/-- What an instruction does, and where the machine goes on. The return address of a call is not
part of this, and neither is what a system call does. -/
def exec (labels : String → BitVec 32) : Instr → State → Option (State × Route)
  | .binary op target first second, state => do
    return (state.set target (← outcome? op (state.get first) (state.get second)), .next)
  | .neg target source, state => do
    return (state.set target (← sub? 0 (state.get source)), .next)
  | .flip target source, state => some (state.set target (state.get source ^^^ 1), .next)
  | .exceeds target first second, state =>
    some (state.set target (ofBool ((state.get first).ult (state.get second))), .next)
  | .addImm target source number, state => do
    return (state.set target (← add? (state.get source) (← amount? number.toInt)), .next)
  | .reserve bytes, state => do
    if bytes < 0 then none
    else return (state.set .sp (← add? (state.get .sp) (← amount? (-bytes.toInt))), .next)
  | .move target source, state => some (state.set target (state.get source), .next)
  | .loadImm target text, state => do
    return (state.set target (← immediate? 32 text), .next)
  | .loadAddress target source, state => do
    return (state.set target (← source.address? labels state), .next)
  | .loadWord target source, state => do
    return (state.set target (state.bytes.read (← source.address? labels state)), .next)
  | .storeWord source target, state => do
    return (state.put (← target.address? labels state) (state.get source), .next)
  | .jump label, state => some (state, .jump label)
  | .jumpIfZero source label, state =>
    some (state, if state.get source = 0 then .jump label else .next)
  | .call label, state => some (state, .call label)
  | .ret, state => some (state, .ret)
  | .syscall, state => some (state, .service)
  | .nop, state => some (state, .next)

/-! ## Sums -/

/-- A sum that does not overflow. -/
theorem bind_add?_eq {first : BitVec 32} {number : Int} (hlow : -2 ^ 31 ≤ number)
    (hhigh : number < 2 ^ 31) (hlow' : -2 ^ 31 ≤ first.toInt + number)
    (hhigh' : first.toInt + number < 2 ^ 31) :
    (amount? number).bind (add? first) = some (first + BitVec.ofInt 32 number) := by
  have hnumber : (BitVec.ofInt 32 number).toInt = number := by
    rw [BitVec.toInt_ofInt, Int.bmod_eq_of_le (by omega) (by omega)]
  have hover : ¬ first.saddOverflow (BitVec.ofInt 32 number) = true := by
    simp [BitVec.saddOverflow, hnumber]
    omega
  rw [amount?, if_pos ⟨hlow, hhigh⟩, Option.bind_some, add?, if_neg hover]

theorem exec_addImm {labels : String → BitVec 32} {state : State} {target source : Reg}
    {number : Int64} (hlow : -2 ^ 31 ≤ number.toInt) (hhigh : number.toInt < 2 ^ 31)
    (hlow' : -2 ^ 31 ≤ (state.get source).toInt + number.toInt)
    (hhigh' : (state.get source).toInt + number.toInt < 2 ^ 31) :
    exec labels (.addImm target source number) state =
      some (state.set target (state.get source + BitVec.ofInt 32 number.toInt), .next) := by
  obtain ⟨amount, hamount, hadd⟩ := Option.bind_eq_some_iff.1 (bind_add?_eq hlow hhigh hlow' hhigh')
  simp [exec, hamount, hadd]

/-- The stack pointer moves down without a trap if there is room. -/
theorem exec_reserve {labels : String → BitVec 32} {state : State} {size : Int64}
    (hnonneg : 0 ≤ size.toInt) (hroom : size.toInt ≤ (state.get .sp).toNat)
    (hceiling : (state.get .sp).toNat < 2 ^ 31) : exec labels (.reserve size) state =
      some (state.set .sp (state.get .sp - BitVec.ofInt 32 size.toInt), .next) := by
  have hsp := BitVec.toInt_eq_toNat_of_lt (show 2 * (state.get .sp).toNat < 2 ^ 32 by omega)
  have hsum := @bind_add?_eq (state.get .sp) (-size.toInt) (by omega) (by omega) (by omega) (by omega)
  obtain ⟨amount, hamount, hadd⟩ := Option.bind_eq_some_iff.1 hsum
  have hsign : ¬ size < 0 := by
    rw [Int64.lt_iff_toInt_lt]
    exact Int.not_lt.2 hnonneg
  rw [exec, if_neg hsign]
  simp [hamount, hadd, BitVec.ofInt_neg, BitVec.sub_eq_add_neg]

/-! ## Fetching operands -/

section Operands

variable {labels : String → BitVec 32} {placement : Placement} {operand : Operand} {reg : Reg}
  {state : State} {code : List Instr} {word address : BitVec 32}

theorem exec_loadWord {place : Mem} (haddress : place.address? labels state = some address) :
    exec labels (.loadWord reg place) state =
      some (state.set reg (state.bytes.read address), .next) := by
  simp [exec, haddress]

theorem exec_loadAddress {place : Mem} (haddress : place.address? labels state = some address) :
    exec labels (.loadAddress reg place) state = some (state.set reg address, .next) := by
  simp [exec, haddress]

theorem exec_storeWord {place : Mem} (haddress : place.address? labels state = some address) :
    exec labels (.storeWord reg place) state =
      some (state.put address (state.get reg), .next) := by
  simp [exec, haddress]

/-- Loading an operand fetches its word. -/
theorem load_runs (hload : load placement operand reg = .ok code) (hreg : reg ≠ .zero)
    (hcontent : content? .mips placement (state.scene labels) operand = some word) :
    ∃ state', run (exec labels) code state = some (state', .next) ∧ state'.get reg = word ∧
      state.Keeps [.t9, reg] state' := by
  have hone : ∀ instr, load placement operand reg = .ok [instr] →
      exec labels instr state = some (state.set reg word, .next) →
      ∃ state', run (exec labels) code state = some (state', .next) ∧ state'.get reg = word ∧
        state.Keeps [.t9, reg] state' := by
    intro instr hinstr hexec
    cases hload.symm.trans hinstr
    exact ⟨_, run_single hexec, state.set_get_self word hreg,
      (State.Keeps.set state reg word).mono (by simp)⟩
  have hread : ∀ location : Location,
      (location.address? .mips (state.scene labels)).map state.bytes.read = some word →
      exec labels (.loadWord reg (.storage location)) state = some (state.set reg word, .next) := by
    intro location hword
    obtain ⟨address, haddress, rfl⟩ := Option.map_eq_some_iff.1 hword
    exact exec_loadWord haddress
  cases operand with
  | constant text =>
      have himmediate : immediate? 32 text = some word := hcontent
      exact hone (.loadImm reg text) rfl (by simp [exec, himmediate])
  | string index => exact hone _ rfl (exec_loadAddress hcontent)
  | var var => exact hone _ rfl (hread _ hcontent)
  | temp temp => exact hone _ rfl (hread _ hcontent)
  | address temp =>
      cases hload
      obtain ⟨address, haddress, rfl⟩ := Option.map_eq_some_iff.1 hcontent
      obtain ⟨place, hplace, rfl⟩ := Option.map_eq_some_iff.1 haddress
      let followed := state.set .t9 (state.bytes.read place)
      have hfollow : exec labels (.loadWord .t9 (.storage (placement temp.slot))) state =
          some (followed, .next) := exec_loadWord hplace
      have hthrough : Mem.address? labels followed (.offset 0 .t9) =
          some (state.bytes.read place) := by
        rw [Mem.address?, State.set_get_self _ _ (by decide)]
        simp
      refine ⟨followed.set reg (state.bytes.read (state.bytes.read place)), ?_,
        State.set_get_self _ _ hreg, ?_⟩
      · rw [run_cons_next hfollow]
        exact run_single (exec_loadWord hthrough)
      · exact ((State.Keeps.set _ .t9 _).mono (by simp)).trans
          ((State.Keeps.set _ reg _).mono (by simp))
  | nothing => cases hcontent

/-- The address of an operand is put into a register. -/
theorem addressOf_runs (haddressOf : addressOf placement operand reg = .ok code)
    (hresidence : residence? .mips placement (state.scene labels) operand = some address) :
    run (exec labels) code state = some (state.set reg address, .next) := by
  have hone : ∀ instr, addressOf placement operand reg = .ok [instr] →
      exec labels instr state = some (state.set reg address, .next) →
      run (exec labels) code state = some (state.set reg address, .next) := by
    intro instr hinstr hexec
    cases haddressOf.symm.trans hinstr
    exact run_single hexec
  cases operand with
  | var var => exact hone _ rfl (exec_loadAddress hresidence)
  | temp temp => exact hone _ rfl (exec_loadAddress hresidence)
  | address temp =>
      obtain ⟨place, hplace, rfl⟩ := Option.map_eq_some_iff.1 hresidence
      exact hone _ rfl (exec_loadWord hplace)
  | constant => cases hresidence
  | string => cases hresidence
  | nothing => cases hresidence

end Operands

end Shanty.Target.Mips
